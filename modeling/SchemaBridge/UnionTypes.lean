import SchemaBridge.Keyword

/-!
The types that the branches of a combinator admit. Branches are unfolded from left to right, a
reference standing for its target, and each leaf contributes the types that it declares; a type is
listed where it occurs first. Only a reference that leads back to itself unfolds without end.
-/

namespace SchemaBridge

namespace UnionTypes

/-- The keywords whose branches are alternatives. -/
def combinators : List String := ["oneOf", "anyOf"]

/-- The types that a leaf declares. Without `type`, its other keywords tell an object or an
array. -/
def declared (members : Members) (pointer : String) : Except SchemaError (List JsonType) :=
  match members.lookup "type" with
  | some (.string name) => do return [← Keyword.typeNamed pointer name]
  | some (.array names) => Keyword.typesNamed pointer names
  | some _ => .error (.invalidKeyword pointer "type" .textOrTexts)
  | none =>
    if Keyword.isIn "properties" members then .ok [.object]
    else if Keyword.isIn "items" members then .ok [.array]
    else .error (.untypedUnionBranch pointer)

/-- The branch lists inside a branch, with their keywords. -/
def nested (members : Members) : List (String × List Json) :=
  combinators.filterMap fun keyword =>
    match members.lookup keyword with
    | some (.array branches) => some (keyword, branches)
    | _ => none

/-- How the types of the branch at a pointer are added to those found before. -/
abbrev BranchReader := String → Json → List JsonType → Except SchemaError (List JsonType)

/-- Adds the types of a list of branches, whose first has the given index. -/
def addBranches (read : BranchReader) (base : String) :
    Nat → List Json → List JsonType → Except SchemaError (List JsonType)
  | _, [], types => .ok types
  | index, branch :: rest, types => do
    addBranches read base (index + 1) rest (← read (Pointer.element base index) branch types)

/-- Adds the types of a branch. The references that led to it are remembered, and the budget bounds
the depth of the unfolding. -/
def addBranch (document : Json) : Nat → List String → BranchReader
  | 0, _, _, _, _ => .error .tooDeep
  | budget + 1, followed, pointer, .object members, types =>
    match members.lookup "$ref" with
    | some (.string reference) =>
      if reference ∈ followed then .error (.reference (.circular reference))
      else do
        let target ← Keyword.referencePointer reference
        match document.at? target with
        | some value => addBranch document budget (reference :: followed) target value types
        | none => .error (.reference (.targetNotFound reference))
    | some _ => .error (.invalidKeyword pointer "$ref" .text)
    | none =>
      match nested members with
      | [] => do return (← declared members pointer).foldl Keyword.addType types
      | lists => lists.foldlM (fun types (keyword, branches) =>
          addBranches (addBranch document budget followed) (Pointer.child pointer keyword) 0
            branches types) types
  | _ + 1, _, pointer, branch, _ => .error (.notASchema pointer (JsonType.of branch))

/-- A depth that no finite unfolding reaches: there are fewer distinct references than values, and
between two of them the branches nest less deeply than the document. -/
def maxDepth (document : Json) : Nat :=
  (document.size + 1) * (document.size + 1)

/-- The types that the combinators of the object at a pointer admit. -/
def read (document : Json) (members : Members) (pointer : String) :
    Except SchemaError (List JsonType) :=
  combinators.foldlM (fun types keyword =>
    match members.lookup keyword with
    | none => .ok types
    | some (.array (branch :: rest)) =>
      addBranches (addBranch document (maxDepth document) []) (Pointer.child pointer keyword) 0
        (branch :: rest) types
    | some _ => .error (.invalidKeyword pointer keyword .nonEmptyArray)) []

end UnionTypes

end SchemaBridge
