/-!
Entries of keys and values in the order in which the keys came first. Main statement: after an entry
is put, its key leads to the new value and every other key to what it led to before.
-/

namespace SchemaBridge

namespace Entries

variable {κ α : Type} [BEq κ]

/-- Puts an entry: a new key goes last, a known key keeps its place and takes the new value. -/
def put (key : κ) (value : α) : List (κ × α) → List (κ × α)
  | [] => [(key, value)]
  | (k, v) :: rest => if k == key then (k, value) :: rest else (k, v) :: put key value rest

theorem lookup_put [LawfulBEq κ] (key k : κ) (value : α) (entries : List (κ × α)) :
    (put key value entries).lookup k = if k == key then some value else entries.lookup k := by
  induction entries with
  | nil => by_cases h : k == key <;> simp [put, List.lookup_cons, h]
  | cons entry rest ih =>
    obtain ⟨k', v⟩ := entry
    by_cases hk : k' == key <;> grind [put]

end Entries

end SchemaBridge
