import SchemaBridge.Proofs.DistinctKeys

/-!
How much of a document there is to go through. A part of a document has no more values and no other
texts than the document itself; the texts are the ones that can be references, so a walk that
follows no text twice is short. Main statement: whatever a pointer leads to is within the document.
-/

namespace SchemaBridge

namespace Json

mutual
/-- The texts that are values in a value, from left to right. -/
def texts : Json → List String
  | string text => [text]
  | array elements => elementTexts elements
  | object members => memberTexts members
  | _ => []

def elementTexts : List Json → List String
  | [] => []
  | v :: rest => texts v ++ elementTexts rest

def memberTexts : Members → List String
  | [] => []
  | (_, v) :: rest => texts v ++ memberTexts rest
end

mutual
theorem length_texts_le : ∀ value : Json, value.texts.length ≤ value.size
  | null => by simp [texts, size]
  | bool _ => by simp [texts, size]
  | number _ => by simp [texts, size]
  | string _ => by simp [texts, size]
  | array elements => by
      have hle := length_elementTexts_le elements
      simp only [texts, size]
      omega
  | object members => by
      have hle := length_memberTexts_le members
      simp only [texts, size]
      omega

theorem length_elementTexts_le : ∀ elements : List Json,
    (elementTexts elements).length ≤ sizeElements elements
  | [] => by simp [elementTexts, sizeElements]
  | v :: rest => by
      have hhead := length_texts_le v
      have htail := length_elementTexts_le rest
      simp only [elementTexts, sizeElements, List.length_append]
      omega

theorem length_memberTexts_le : ∀ members : Members,
    (memberTexts members).length ≤ sizeMembers members
  | [] => by simp [memberTexts, sizeMembers]
  | (_, v) :: rest => by
      have hhead := length_texts_le v
      have htail := length_memberTexts_le rest
      simp only [memberTexts, sizeMembers, List.length_append]
      omega
end

theorem texts_subset_elementTexts {v : Json} {elements : List Json} (h : v ∈ elements) :
    v.texts ⊆ elementTexts elements := by
  induction elements with
  | nil => cases h
  | cons w rest ih =>
      rw [elementTexts]
      rcases List.mem_cons.mp h with rfl | h
      · exact List.subset_append_left _ _
      · exact List.Subset.trans (ih h) (List.subset_append_right _ _)

theorem texts_subset_memberTexts {m : String × Json} {members : Members} (h : m ∈ members) :
    m.2.texts ⊆ memberTexts members := by
  induction members with
  | nil => cases h
  | cons m' rest ih =>
      rw [memberTexts]
      rcases List.mem_cons.mp h with rfl | h
      · exact List.subset_append_left _ _
      · exact List.Subset.trans (ih h) (List.subset_append_right _ _)

theorem size_le_sizeMembers_of_mem {m : String × Json} {members : Members} (h : m ∈ members) :
    m.2.size ≤ sizeMembers members := by
  induction members with
  | nil => cases h
  | cons m' rest ih =>
      rw [sizeMembers]
      rcases List.mem_cons.mp h with rfl | h
      · exact Nat.le_add_right _ _
      · exact Nat.le_trans (ih h) (Nat.le_add_left _ _)

/-- Two members of an object have room in it beside each other. -/
theorem size_add_size_le_sizeMembers {key key' : String} {v v' : Json} {members : Members}
    (hne : key ≠ key') (h : members.lookup key = some v) (h' : members.lookup key' = some v') :
    v.size + v'.size ≤ sizeMembers members := by
  induction members with
  | nil => cases h
  | cons m rest ih =>
      obtain ⟨k, w⟩ := m
      rw [List.lookup_cons] at h h'
      rw [sizeMembers]
      split at h <;> split at h'
      · rename_i heq _ heq'
        exact (hne ((eq_of_beq heq).trans (eq_of_beq heq').symm)).elim
      · cases h
        have hle := size_le_sizeMembers h'
        omega
      · cases h'
        have hle := size_le_sizeMembers h
        omega
      · have hle := ih h h'
        omega

/-- A value that has no more parts and no other texts than a document. -/
structure Within (document value : Json) : Prop where
  size_le : value.size ≤ document.size
  texts : value.texts ⊆ document.texts

variable {document value part : Json}

theorem Within.refl (document : Json) : Within document document :=
  ⟨Nat.le_refl _, List.Subset.refl _⟩

theorem Within.element {elements : List Json} (h : Within document (.array elements))
    (hpart : part ∈ elements) : Within document part := by
  have hsize := size_le_sizeElements hpart
  have htexts := texts_subset_elementTexts hpart
  have hle := h.size_le
  rw [size] at hle
  exact ⟨by omega, List.Subset.trans htexts h.texts⟩

theorem Within.of_mem {members : Members} {key : String} (h : Within document (.object members))
    (hpart : (key, part) ∈ members) : Within document part := by
  have hsize : part.size ≤ sizeMembers members := size_le_sizeMembers_of_mem hpart
  have htexts := texts_subset_memberTexts hpart
  have hle := h.size_le
  rw [size] at hle
  exact ⟨by omega, List.Subset.trans htexts h.texts⟩

theorem Within.member {members : Members} {key : String} (h : Within document (.object members))
    (hpart : members.lookup key = some part) : Within document part :=
  h.of_mem (mem_of_lookup hpart)

theorem Within.step? {token : String} (h : Within document value)
    (hpart : value.step? token = some part) : Within document part := by
  cases value with
  | array elements =>
      obtain ⟨index, -, hpart⟩ := Option.bind_eq_some_iff.mp hpart
      exact h.element (List.mem_of_getElem? hpart)
  | object members => exact h.member hpart
  | _ => cases hpart

theorem Within.follow? {tokens : List String} (h : Within document value)
    (hpart : value.follow? tokens = some part) : Within document part := by
  induction tokens generalizing value with
  | nil => cases hpart; exact h
  | cons token rest ih =>
      obtain ⟨next, hnext, hpart⟩ := Option.bind_eq_some_iff.mp hpart
      exact ih (h.step? hnext) hpart

/-- What a pointer leads to is within the document. -/
theorem within_of_at? {pointer : String} (hpart : document.at? pointer = some part) :
    Within document part := by
  obtain ⟨tokens, -, hpart⟩ := Option.bind_eq_some_iff.mp hpart
  exact (Within.refl document).follow? hpart

/-- A reference of an object within a document is one of its texts. -/
theorem Within.text_mem {members : Members} {key text : String}
    (h : Within document (.object members)) (htext : members.lookup key = some (.string text)) :
    text ∈ document.texts := by
  apply (h.member htext).texts
  rw [Json.texts]
  exact List.mem_singleton_self text

end Json

/-- One element that is no longer counted makes a count smaller. -/
theorem countP_lt_countP {α : Type} {p q : α → Bool} {xs : List α} {x : α}
    (hpq : ∀ y, p y = true → q y = true) (hx : x ∈ xs) (hp : p x = false) (hq : q x = true) :
    xs.countP p < xs.countP q := by
  obtain ⟨before, after, rfl⟩ := List.append_of_mem hx
  have hbefore := List.countP_mono_left (l := before) fun y _ => hpq y
  have hafter := List.countP_mono_left (l := after) fun y _ => hpq y
  rw [List.countP_append, List.countP_append, List.countP_cons_of_neg (by simp [hp]),
    List.countP_cons_of_pos hq]
  omega

end SchemaBridge
