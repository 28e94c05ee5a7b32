import SchemaBridge.Emission
import SchemaBridge.ParquetField

/-!
The Parquet message of an object schema. Properties become fields in declaration order, an array of
items a repeated field, and an object a group; the fields of `allOf` branches follow those of the
object itself. The nodes in progress are remembered, since a message cannot refer to itself.
-/

namespace SchemaBridge

namespace ParquetEmission

/-- Where a field lands in its parent. -/
structure Slot where
  name : String
  repetition : Repetition

/-- How the fields of a node are found: none for an untyped one. -/
abbrev FieldEmitter := NodeId → Slot → Except EmissionError (Option ParquetField)

def unsupported {α : Type} (what : Obstacle) : Except EmissionError α :=
  .error (.unsupported .parquet what)

def slotOf (shape : ObjectShape) (name : String) : Slot :=
  ⟨name, if name ∈ shape.required then .required else .optional⟩

/-- The fields of properties, in order. An untyped property has none. -/
def emitProperties (emit : FieldEmitter) (shape : ObjectShape) :
    List (String × NodeId) → Except EmissionError (List ParquetField)
  | [] => .ok []
  | (name, id) :: rest => do
    let field ← emit id (slotOf shape name)
    return field.toList ++ (← emitProperties emit shape rest)

/-- The fields of branches, one after the other. -/
def emitBranches (emit : NodeId → Except EmissionError (List ParquetField)) :
    List NodeId → Except EmissionError (List ParquetField)
  | [] => .ok []
  | id :: rest => do return (← emit id) ++ (← emitBranches emit rest)

def checkNames (fields : List ParquetField) : Except EmissionError (List ParquetField) :=
  match firstRepeated? [] (fields.map ParquetField.name) with
  | some name => unsupported (.repeatedField name)
  | none => .ok fields

/-- The name of a branch in an error: the reference as it is written, or the number of the node. -/
def branchLabel (s : Schema) (branch target : NodeId) : String :=
  match (s.node branch).kind with
  | .reference reference _ => reference
  | _ => "#" ++ toString target

/-- The column of a primitive type. Nothing can be stored for null. -/
def column (slot : Slot) : Primitive → Except EmissionError ParquetField
  | .null => unsupported (.nullField slot.name)
  | .boolean => .ok (.column slot.repetition .boolean none slot.name)
  | .integer => .ok (.column slot.repetition .int32 none slot.name)
  | .number => .ok (.column slot.repetition .double none slot.name)
  | .string => .ok (.column slot.repetition .binary (some .utf8) slot.name)

mutual
/-- The field of a node in a slot. The budget bounds the nesting. -/
def emit (s : Schema) : Nat → List NodeId → FieldEmitter
  | 0, _, _, _ => .error .tooDeep
  | budget + 1, active, id, slot =>
    let active := id :: active
    match (s.node id).kind with
    | .untyped => .ok none
    | .primitive type => some <$> column slot type
    | .enumeration _ => .ok (some (.column slot.repetition .binary (some .enumeration) slot.name))
    | .array items =>
      if slot.repetition = .repeated then unsupported (.nestedArray slot.name)
      else do
        match ← emit s budget active items { slot with repetition := .repeated } with
        | some field => return some field
        | none => throw (.untyped .parquet (slot.name ++ "[]"))
    | .tuple _ => unsupported (.tupleField slot.name)
    | .object shape => do
      return some (.group slot.repetition slot.name (← fields s budget active shape))
    | .reference target resolved =>
      match resolved with
      | none => .error (.unresolved target)
      | some next =>
        if next ∈ active then .error (.cycle target) else emit s budget active next slot
    | .union types => unsupported (.unionField slot.name types)

def fields (s : Schema) : Nat → List NodeId → ObjectShape → Except EmissionError (List ParquetField)
  | 0, _, _ => .error .tooDeep
  | budget + 1, active, shape => do
    let own ← emitProperties (emit s budget active) shape shape.properties
    let inherited ← emitBranches (branchFields s budget active) shape.allOf
    checkNames (own ++ inherited)

def branchFields (s : Schema) :
    Nat → List NodeId → NodeId → Except EmissionError (List ParquetField)
  | 0, _, _ => .error .tooDeep
  | budget + 1, active, branch => do
    let target ← s.dereference branch
    if target ∈ active then throw (.cycle (branchLabel s branch target))
    match (s.node target).kind with
    | .object shape => fields s budget (target :: active) shape
    | .untyped => return []
    | kind => unsupported (.nonObjectBranch kind.name)
end

/-- The name of a message that no setting and no title gives. -/
def defaultName : String := "Message"

end ParquetEmission

namespace Schema

/-- The Parquet fields of an object schema. -/
def parquetFields (s : Schema) : Except EmissionError (List ParquetField) := do
  let (root, shape) ← s.rootObject
  ParquetEmission.fields s s.maxEmissionDepth [root] shape

/-- The Parquet message of an object schema. Unless a name is given, the title of the root is its
name. -/
def parquetMessage (s : Schema) (name : Option String) : Except EmissionError ParquetMessage := do
  let fields ← s.parquetFields
  let (root, _) ← s.rootObject
  let title := (s.node root).title.getD ParquetEmission.defaultName
  return { name := name.getD title, fields }

end Schema

end SchemaBridge
