import SchemaBridge.Binary64
import SchemaBridge.Entries

/-!
JSON values. An object keeps its members in order, and its keys are distinct once it is built by
`Entries.put`. Equality of values compares numbers by the quantity they denote and ignores the order
of object members.
-/

namespace SchemaBridge

/-- A number of a JSON document: an integer kept exactly, or a finite floating-point number. -/
inductive JsonNumber where
  | integer (value : Int)
  | real (value : Binary64)
deriving DecidableEq

namespace JsonNumber

/-- Whether the number has no fractional part. -/
def isIntegral : JsonNumber → Bool
  | integer _ => true
  | real x => x.isIntegral

/-- Whether two numbers denote the same quantity. An integer meets a floating-point number as the
floating-point number nearest to it. -/
def sameValue : JsonNumber → JsonNumber → Bool
  | integer i, integer j => i == j
  | integer i, real y => (Binary64.ofInt? i).any fun x => x.sameValue y
  | real x, integer j => (Binary64.ofInt? j).any fun y => x.sameValue y
  | real x, real y => x.sameValue y

theorem sameValue_comm (m n : JsonNumber) : m.sameValue n = n.sameValue m := by
  cases m <;> cases n <;> simp [sameValue, Binary64.sameValue_comm, Bool.beq_comm]

end JsonNumber

/-- A JSON value. -/
inductive Json where
  | null
  | bool (value : Bool)
  | number (value : JsonNumber)
  | string (value : String)
  | array (elements : List Json)
  | object (members : List (String × Json))

/-- The members of an object, in order. -/
abbrev Members := List (String × Json)

namespace Json

instance : Inhabited Json := ⟨null⟩

mutual
/-- The number of values in a value, itself included. -/
def size : Json → Nat
  | array elements => sizeElements elements + 1
  | object members => sizeMembers members + 1
  | _ => 1

def sizeElements : List Json → Nat
  | [] => 0
  | v :: rest => size v + sizeElements rest

def sizeMembers : Members → Nat
  | [] => 0
  | (_, v) :: rest => size v + sizeMembers rest
end

theorem size_pos (v : Json) : 0 < v.size := by
  cases v <;> simp [size]

theorem size_le_sizeElements {v : Json} {elements : List Json} (h : v ∈ elements) :
    v.size ≤ sizeElements elements := by
  induction elements with
  | nil => simp at h
  | cons w rest ih =>
    rcases List.mem_cons.1 h with rfl | h
    · simp [sizeElements]
    · have := ih h; simp only [sizeElements]; omega

theorem size_le_sizeMembers {key : String} {v : Json} {members : Members}
    (h : members.lookup key = some v) : v.size ≤ sizeMembers members := by
  induction members with
  | nil => simp at h
  | cons m rest ih =>
    obtain ⟨k, w⟩ := m
    rw [List.lookup_cons] at h
    split at h
    · cases h; simp [sizeMembers]
    · have := ih h; simp only [sizeMembers]; omega

mutual
/-- Whether two values are equal as data: numbers by quantity, objects whatever their order. -/
def same : Json → Json → Bool
  | null, null => true
  | bool a, bool b => a == b
  | number m, number n => m.sameValue n
  | string s, string t => s == t
  | array xs, array ys => sameElements xs ys
  | object xs, object ys => xs.length == ys.length && sameMembers xs ys
  | _, _ => false

def sameElements : List Json → List Json → Bool
  | [], [] => true
  | x :: xs, y :: ys => same x y && sameElements xs ys
  | _, _ => false

/-- Whether every member on the left has an equal one of the same key on the right. -/
def sameMembers : Members → Members → Bool
  | [], _ => true
  | (key, x) :: xs, ys =>
    (match ys.lookup key with
      | some y => same x y
      | none => false) && sameMembers xs ys
end

end Json

end SchemaBridge
