import SchemaBridge.UnionTypes
import SchemaBridge.Schema

/-!
What the keywords of a schema object say about its kind, by precedence. A reference, an enumeration
and a combinator exclude each other and hide `type`; without any of them `type` decides, and without
`type` the structural keywords do. The outline of an object or array leaves its parts to be read.
-/

namespace SchemaBridge

/-- The kind of a schema object, its parts not yet read. -/
inductive Outline where
  | leaf (kind : Kind)
  | object
  | array

namespace Outline

/-- The keywords that decide the kind before `type` does. Those of a combinator may stand
together. -/
def deciding : List String :=
  ["$ref", "enum"] ++ UnionTypes.combinators

/-- The outline of an object with a single type. A type without parts admits no keyword that
describes parts. -/
def ofType (members : Members) (pointer : String) : JsonType → Except SchemaError Outline
  | .object => .ok .object
  | .array => .ok .array
  | .primitive type =>
    match ["properties", "items", "allOf"].find? (Keyword.isIn · members) with
    | some keyword => .error (.conflictingKeywords pointer ["type", keyword])
    | none => .ok (.leaf (.primitive type))

/-- The outline of an object without a reference, an enumeration or a combinator. -/
def ofDeclaredType (members : Members) (pointer : String) : Except SchemaError Outline :=
  match members.lookup "type" with
  | some (.string name) => do ofType members pointer (← Keyword.typeNamed pointer name)
  | some (.array names) => do
    match ← Keyword.typesNamed pointer names with
    | [type] => ofType members pointer type
    | types => return .leaf (.union types)
  | some _ => .error (.invalidKeyword pointer "type" .textOrTexts)
  | none =>
    if ["properties", "required", "allOf"].any (Keyword.isIn · members) then .ok .object
    else if Keyword.isIn "items" members then .ok .array
    else .ok (.leaf .untyped)

/-- The outline of the object at a pointer of a document. -/
def read (document : Json) (members : Members) (pointer : String) : Except SchemaError Outline :=
  match members.lookup "$ref", members.lookup "enum",
    UnionTypes.combinators.filter (Keyword.isIn · members) with
  | none, none, [] => ofDeclaredType members pointer
  | some (.string reference), none, [] => .ok (.leaf (.reference reference none))
  | some _, none, [] => .error (.invalidKeyword pointer "$ref" .text)
  | none, some (.array (literal :: rest)), [] => .ok (.leaf (.enumeration (literal :: rest)))
  | none, some _, [] => .error (.invalidKeyword pointer "enum" .nonEmptyArray)
  | none, none, _ => do return .leaf (.union (← UnionTypes.read document members pointer))
  | _, _, _ =>
    .error (.conflictingKeywords pointer (deciding.filter (Keyword.isIn · members)))

end Outline

end SchemaBridge
