import SchemaBridge.Proofs.PointerLaws

/-!
Values whose objects name no key twice. Each part of such a value is one again, and its members are
exactly what the tokens of a pointer lead to.
-/

namespace SchemaBridge

theorem lookup_of_mem {α : Type} {entries : List (String × α)} {key : String} {value : α}
    (hkeys : (entries.map Prod.fst).Nodup) (hmem : (key, value) ∈ entries) :
    entries.lookup key = some value := by
  induction entries with
  | nil => cases hmem
  | cons entry rest ih =>
      obtain ⟨k, v⟩ := entry
      rw [List.map_cons, List.nodup_cons] at hkeys
      rcases List.mem_cons.mp hmem with heq | htail
      · cases heq
        rw [List.lookup_cons_self]
      · have hne : (key == k) = false := by
          rw [beq_eq_false_iff_ne]
          rintro rfl
          exact hkeys.1 (List.mem_map.mpr ⟨_, htail, rfl⟩)
        rw [List.lookup_cons, hne]
        exact ih hkeys.2 htail

theorem mem_of_lookup {κ α : Type} [BEq κ] [LawfulBEq κ] {entries : List (κ × α)} {key : κ}
    {value : α} (h : entries.lookup key = some value) : (key, value) ∈ entries := by
  obtain ⟨before, after, rfl, -⟩ := List.lookup_eq_some_iff.mp h
  exact List.mem_append_right _ List.mem_cons_self

theorem lookup_filter_ne {α : Type} {key other : String} (hne : other ≠ key)
    (entries : List (String × α)) :
    (entries.filter fun e => e.1 ≠ key).lookup other = entries.lookup other := by
  induction entries with
  | nil => rfl
  | cons e rest ih =>
      obtain ⟨k, v⟩ := e
      by_cases hk : k = key
      · have hother : (other == k) = false := by
          rw [beq_eq_false_iff_ne, hk]
          exact hne
        rw [List.filter_cons_of_neg (by simpa using hk), ih, List.lookup_cons, hother]
      · rw [List.filter_cons_of_pos (by simpa using hk), List.lookup_cons, List.lookup_cons, ih]

namespace Json

/-- No object of a value names a key twice. -/
inductive DistinctKeys : Json → Prop
  | null : DistinctKeys .null
  | bool (b : Bool) : DistinctKeys (.bool b)
  | number (n : JsonNumber) : DistinctKeys (.number n)
  | string (s : String) : DistinctKeys (.string s)
  | array {elements : List Json} (helements : ∀ v ∈ elements, DistinctKeys v) :
      DistinctKeys (.array elements)
  | object {members : Members} (hkeys : (members.map Prod.fst).Nodup)
      (hmembers : ∀ m ∈ members, DistinctKeys m.2) : DistinctKeys (.object members)

mutual
/-- Whether no object of a value names a key twice. -/
def hasDistinctKeys : Json → Bool
  | array elements => allHaveDistinctKeys elements
  | object members => decide (members.map Prod.fst).Nodup && membersHaveDistinctKeys members
  | _ => true

/-- Whether no object in a list of elements names a key twice. -/
def allHaveDistinctKeys : List Json → Bool
  | [] => true
  | v :: rest => hasDistinctKeys v && allHaveDistinctKeys rest

/-- Whether no object in a list of members names a key twice. -/
def membersHaveDistinctKeys : Members → Bool
  | [] => true
  | (_, v) :: rest => hasDistinctKeys v && membersHaveDistinctKeys rest
end

mutual
theorem hasDistinctKeys_iff : ∀ value : Json, value.hasDistinctKeys = true ↔ value.DistinctKeys
  | null => by simp [hasDistinctKeys, DistinctKeys.null]
  | bool b => by simp [hasDistinctKeys, DistinctKeys.bool]
  | number n => by simp [hasDistinctKeys, DistinctKeys.number]
  | string s => by simp [hasDistinctKeys, DistinctKeys.string]
  | array elements => by
      rw [hasDistinctKeys, allHaveDistinctKeys_iff elements]
      exact ⟨.array, fun h => by cases h; assumption⟩
  | object members => by
      rw [hasDistinctKeys, Bool.and_eq_true, decide_eq_true_iff, membersHaveDistinctKeys_iff members]
      exact ⟨fun h => .object h.1 h.2, fun h => by cases h; constructor <;> assumption⟩

theorem allHaveDistinctKeys_iff : ∀ elements : List Json,
    allHaveDistinctKeys elements = true ↔ ∀ v ∈ elements, v.DistinctKeys
  | [] => by simp [allHaveDistinctKeys]
  | v :: rest => by
      rw [allHaveDistinctKeys, Bool.and_eq_true, hasDistinctKeys_iff v, allHaveDistinctKeys_iff rest,
        List.forall_mem_cons]

theorem membersHaveDistinctKeys_iff : ∀ members : Members,
    membersHaveDistinctKeys members = true ↔ ∀ m ∈ members, m.2.DistinctKeys
  | [] => by simp [membersHaveDistinctKeys]
  | (key, v) :: rest => by
      rw [membersHaveDistinctKeys, Bool.and_eq_true, hasDistinctKeys_iff v,
        membersHaveDistinctKeys_iff rest, List.forall_mem_cons]
end

instance (value : Json) : Decidable value.DistinctKeys :=
  decidable_of_iff _ (hasDistinctKeys_iff value)

theorem DistinctKeys.keys_nodup {members : Members} (h : DistinctKeys (.object members)) :
    (members.map Prod.fst).Nodup := by
  cases h with
  | object hkeys _ => exact hkeys

theorem DistinctKeys.lookup {members : Members} {key : String} {value : Json}
    (h : DistinctKeys (.object members)) (hvalue : members.lookup key = some value) :
    value.DistinctKeys := by
  cases h with
  | object _ hmembers => exact hmembers _ (mem_of_lookup hvalue)

theorem DistinctKeys.step? {value part : Json} {token : String} (h : value.DistinctKeys)
    (hpart : value.step? token = some part) : part.DistinctKeys := by
  cases h with
  | array helements =>
      obtain ⟨index, -, hpart⟩ := Option.bind_eq_some_iff.mp hpart
      exact helements _ (List.mem_of_getElem? hpart)
  | object hkeys hmembers => exact hmembers _ (mem_of_lookup hpart)
  | _ => cases hpart

theorem DistinctKeys.follow? {value part : Json} {tokens : List String} (h : value.DistinctKeys)
    (hpart : value.follow? tokens = some part) : part.DistinctKeys := by
  induction tokens generalizing value with
  | nil => cases hpart; exact h
  | cons token rest ih =>
      obtain ⟨next, hnext, hpart⟩ := Option.bind_eq_some_iff.mp hpart
      exact ih (h.step? hnext) hpart

theorem DistinctKeys.at? {value part : Json} {pointer : String} (h : value.DistinctKeys)
    (hpart : value.at? pointer = some part) : part.DistinctKeys := by
  obtain ⟨tokens, -, hpart⟩ := Option.bind_eq_some_iff.mp hpart
  exact h.follow? hpart

end Json

end SchemaBridge
