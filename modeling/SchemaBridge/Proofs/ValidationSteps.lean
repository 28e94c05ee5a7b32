import SchemaBridge.Validation

/-!
One step of validation. A check succeeds or fails by the kind of its node, by the value, and by the
targets that were entered at the location; the path only says where it stands. Main statement: a
check with a budget succeeds exactly if the kind admits the value, its parts being checked with the
budget that is left.
-/

namespace SchemaBridge

/-- What a kind asks of a value, given what it is for a node to accept a value after some targets
were entered. A descent forgets the targets, a branch keeps them, and a reference adds its own. -/
def Kind.Admits (accepts : NodeId → Json → List NodeId → Prop) (kind : Kind) (value : Json)
    (entered : List NodeId) : Prop :=
  match kind with
  | .untyped => True
  | .primitive type => (JsonType.primitive type).accepts value = true
  | .enumeration literals => ∃ literal ∈ literals, literal.same value = true
  | .array items => ∃ values, value = .array values ∧ ∀ v ∈ values, accepts items v []
  | .tuple ids => ∃ values, value = .array values ∧ values.length = ids.length ∧
      ∀ p ∈ ids.zip values, accepts p.1 p.2 []
  | .object shape => ∃ members, value = .object members ∧
      (∀ name ∈ shape.required, members.lookup name ≠ none) ∧
      (∀ p ∈ shape.properties, ∀ v, members.lookup p.1 = some v → accepts p.2 v []) ∧
      ∀ id ∈ shape.allOf, accepts id value entered
  | .reference _ resolved => ∃ target, resolved = some target ∧ target ∉ entered ∧
      accepts target value (entered ++ [target])
  | .union types => ∃ type ∈ types, type.accepts value = true

namespace Kind

theorem size_lt_of_element {values : List Json} {v : Json} (h : v ∈ values) :
    v.size < (Json.array values).size := by
  have hle := Json.size_le_sizeElements h
  rw [Json.size]
  omega

theorem size_lt_of_member {members : Members} {key : String} {v : Json}
    (h : members.lookup key = some v) : v.size < (Json.object members).size := by
  have hle := Json.size_le_sizeMembers h
  rw [Json.size]
  omega

/-- What a kind admits depends on its parts at smaller values, on its branches, and on its
target. -/
theorem Admits.imp {P Q : NodeId → Json → List NodeId → Prop} {kind : Kind} {value : Json}
    {entered entered' : List NodeId} (h : kind.Admits P value entered)
    (hdescend : ∀ id ∈ kind.children, ∀ v, v.size < value.size → P id v [] → Q id v [])
    (hbranch : ∀ id ∈ kind.children, P id value entered → Q id value entered')
    (htarget : ∀ text target, kind = .reference text (some target) → target ∉ entered →
      P target value (entered ++ [target]) →
        target ∉ entered' ∧ Q target value (entered' ++ [target])) :
    kind.Admits Q value entered' := by
  cases kind with
  | untyped => trivial
  | primitive type => exact h
  | enumeration literals => exact h
  | array items =>
      obtain ⟨values, rfl, hvalues⟩ := h
      refine ⟨values, rfl, ?_⟩
      intro v hv
      have hsize := size_lt_of_element hv
      exact hdescend items (List.mem_singleton_self _) v hsize (hvalues v hv)
  | tuple ids =>
      obtain ⟨values, rfl, hlength, hvalues⟩ := h
      refine ⟨values, rfl, hlength, ?_⟩
      intro p hp
      obtain ⟨hid, hv⟩ := List.of_mem_zip hp
      exact hdescend p.1 hid p.2 (size_lt_of_element hv) (hvalues p hp)
  | object shape =>
      obtain ⟨members, rfl, hrequired, hproperties, hallOf⟩ := h
      refine ⟨members, rfl, hrequired, ?_, ?_⟩
      · intro p hp v hv
        have hchild := List.mem_append_left shape.allOf (List.mem_map_of_mem (f := Prod.snd) hp)
        exact hdescend p.2 hchild v (size_lt_of_member hv) (hproperties p hp v hv)
      · intro id hid
        have hchild := List.mem_append_right (shape.properties.map Prod.snd) hid
        exact hbranch id hchild (hallOf id hid)
  | reference text resolved =>
      obtain ⟨target, rfl, hfresh, hrest⟩ := h
      obtain ⟨hfresh', hrest'⟩ := htarget text target rfl hfresh hrest
      exact ⟨target, rfl, hfresh', hrest'⟩
  | union types => exact h

end Kind

/-- The value of a node that a check with a budget accepts. -/
def Schema.AcceptsWithin (s : Schema) : Nat → NodeId → Json → List NodeId → Prop
  | 0, _, _, _ => False
  | budget + 1, id, value, entered =>
    (s.node id).kind.Admits (s.AcceptsWithin budget) value entered

namespace Validation

theorem andThen_ok {x y : Except ValidationError Unit} :
    (do x; y) = .ok () ↔ x = .ok () ∧ y = .ok () := by
  cases x with
  | error e => exact ⟨fun h => (nomatch h), fun h => (nomatch h.1)⟩
  | ok u => exact ⟨fun h => ⟨rfl, h⟩, fun h => h.2⟩

theorem accepts_array {value : Json} :
    JsonType.array.accepts value = true ↔ ∃ values, value = .array values := by
  cases value with
  | array values => simp [JsonType.accepts, JsonType.of]
  | number n => by_cases h : n.isIntegral <;> simp [JsonType.accepts, JsonType.of, h]
  | _ => simp [JsonType.accepts, JsonType.of]

theorem accepts_object {value : Json} :
    JsonType.object.accepts value = true ↔ ∃ members, value = .object members := by
  cases value with
  | object members => simp [JsonType.accepts, JsonType.of]
  | number n => by_cases h : n.isIntegral <;> simp [JsonType.accepts, JsonType.of, h]
  | _ => simp [JsonType.accepts, JsonType.of]

theorem unless_fail_ok {c : Prop} [Decidable c] {x : Except ValidationError Unit} {f : Frame}
    {violation : Violation} : (if c then x else f.fail violation) = .ok () ↔ c ∧ x = .ok () := by
  by_cases hc : c
  · simp [hc]
  · simp [hc, Frame.fail]

theorem expect_ok {f : Frame} {type : JsonType} :
    f.expect type = .ok () ↔ type.accepts f.value = true := by
  rw [Frame.expect, unless_fail_ok, and_iff_left rfl]

theorem expect_array_ok {f : Frame} {Q : List Json → Prop}
    (hvalue : ∀ values, f.value ≠ .array values) :
    f.expect .array = .ok () ↔ ∃ values, f.value = .array values ∧ Q values := by
  rw [expect_ok, accepts_array]
  constructor
  · rintro ⟨values, h⟩
    exact (hvalue values h).elim
  · rintro ⟨values, h, -⟩
    exact ⟨values, h⟩

theorem expect_object_ok {f : Frame} {Q : Members → Prop}
    (hvalue : ∀ members, f.value ≠ .object members) :
    f.expect .object = .ok () ↔ ∃ members, f.value = .object members ∧ Q members := by
  rw [expect_ok, accepts_object]
  constructor
  · rintro ⟨members, h⟩
    exact (hvalue members h).elim
  · rintro ⟨members, h, -⟩
    exact ⟨members, h⟩

theorem find?_missing_eq_none {required : List String} {members : Members} :
    required.find? (fun name => (members.lookup name).isNone) = none ↔
      ∀ name ∈ required, members.lookup name ≠ none := by
  simp only [List.find?_eq_none, Option.isNone_iff_eq_none, ne_eq]

section

variable {check : Checker} {P : NodeId → Json → List NodeId → Prop}
  (hP : ∀ id f, check id f = .ok () ↔ P id f.value f.entered)

include hP

theorem checkElements_ok {f : Frame} {items : NodeId} {index : Nat} {values : List Json} :
    checkElements check f items index values = .ok () ↔ ∀ v ∈ values, P items v [] := by
  induction values generalizing index with
  | nil => simp [checkElements]
  | cons v rest ih =>
      rw [checkElements, andThen_ok, ih, hP, List.forall_mem_cons]
      rfl

theorem checkTuple_ok {f : Frame} {index : Nat} {ids : List NodeId} {values : List Json} :
    checkTuple check f index ids values = .ok () ↔ ∀ p ∈ ids.zip values, P p.1 p.2 [] := by
  induction ids generalizing index values with
  | nil => simp [checkTuple]
  | cons id ids ih =>
      cases values with
      | nil => simp [checkTuple]
      | cons v rest =>
          rw [checkTuple, andThen_ok, ih, hP, List.zip_cons_cons, List.forall_mem_cons]
          rfl

theorem checkProperties_ok {f : Frame} {members : Members} {properties : List (String × NodeId)} :
    checkProperties check f members properties = .ok () ↔
      ∀ p ∈ properties, ∀ v, members.lookup p.1 = some v → P p.2 v [] := by
  induction properties with
  | nil => simp [checkProperties]
  | cons p rest ih =>
      obtain ⟨name, id⟩ := p
      rw [checkProperties, List.forall_mem_cons]
      cases members.lookup name with
      | none => simp only [← ih, reduceCtorEq, false_implies, implies_true, true_and]; rfl
      | some v =>
          refine andThen_ok.trans (and_congr ((hP id _).trans ⟨fun h w hw => ?_, fun h => h v rfl⟩) ih)
          cases hw
          exact h

theorem checkBranches_ok {f : Frame} {ids : List NodeId} :
    checkBranches check f ids = .ok () ↔ ∀ id ∈ ids, P id f.value f.entered := by
  induction ids with
  | nil => simp [checkBranches]
  | cons id rest ih => rw [checkBranches, andThen_ok, ih, hP, List.forall_mem_cons]

theorem checkKind_array_ok {f : Frame} {items : NodeId} :
    checkKind check (.array items) f = .ok () ↔
      (Kind.array items).Admits P f.value f.entered := by
  rw [checkKind, Kind.Admits]
  split
  · rename_i values hvalue
    simp only [hvalue, checkElements_ok hP, Json.array.injEq, exists_eq_left']
  · rename_i hvalue
    exact expect_array_ok hvalue

theorem checkKind_tuple_ok {f : Frame} {ids : List NodeId} :
    checkKind check (.tuple ids) f = .ok () ↔ (Kind.tuple ids).Admits P f.value f.entered := by
  rw [checkKind, Kind.Admits]
  split
  · rename_i values hvalue
    simp only [hvalue, unless_fail_ok, checkTuple_ok hP, Json.array.injEq, exists_eq_left']
  · rename_i hvalue
    exact expect_array_ok hvalue

theorem checkKind_object_ok {f : Frame} {shape : ObjectShape} :
    checkKind check (.object shape) f = .ok () ↔
      (Kind.object shape).Admits P f.value f.entered := by
  rw [checkKind, Kind.Admits]
  split
  · rename_i members hvalue
    have hbranches := @checkBranches_ok _ _ hP f shape.allOf
    rw [hvalue] at hbranches ⊢
    simp only [Json.object.injEq, exists_eq_left']
    split
    · rename_i name hmissing
      constructor
      · intro h
        cases h
      · rintro ⟨hrequired, -⟩
        rw [find?_missing_eq_none.mpr hrequired] at hmissing
        cases hmissing
    · rename_i hpresent
      rw [andThen_ok, checkProperties_ok hP, hbranches,
        and_iff_right (find?_missing_eq_none.mp hpresent)]
  · rename_i hvalue
    exact expect_object_ok hvalue

theorem checkKind_reference_ok {f : Frame} {text : String} {resolved : Option NodeId} :
    checkKind check (.reference text resolved) f = .ok () ↔
      (Kind.reference text resolved).Admits P f.value f.entered := by
  cases resolved with
  | none => simp [checkKind, Kind.Admits, Frame.fail]
  | some target =>
      simp only [checkKind, Kind.Admits, Option.some.injEq, exists_eq_left']
      by_cases hmem : target ∈ f.entered
      · simp [hmem]
      · simp only [hmem, if_false, not_false_eq_true, true_and, hP]
        rfl

/-- A check by a kind succeeds exactly if the kind admits the value. -/
theorem checkKind_ok {kind : Kind} {f : Frame} :
    checkKind check kind f = .ok () ↔ kind.Admits P f.value f.entered := by
  cases kind with
  | untyped => simp [checkKind, Kind.Admits]
  | primitive type => exact expect_ok
  | enumeration literals =>
      rw [checkKind, Kind.Admits, unless_fail_ok, and_iff_left rfl, List.any_eq_true]
  | array items => exact checkKind_array_ok hP
  | tuple ids => exact checkKind_tuple_ok hP
  | object shape => exact checkKind_object_ok hP
  | reference text resolved => exact checkKind_reference_ok hP
  | union types =>
      rw [checkKind, Kind.Admits, unless_fail_ok, and_iff_left rfl, List.any_eq_true]

end

/-- A check with a budget succeeds exactly if the node accepts the value within it. -/
theorem check_ok {s : Schema} {budget : Nat} (id : NodeId) (f : Frame) :
    check s budget id f = .ok () ↔ s.AcceptsWithin budget id f.value f.entered := by
  induction budget generalizing id f with
  | zero => exact ⟨fun h => (nomatch h), fun h => h.elim⟩
  | succ budget ih => exact checkKind_ok ih

end Validation

end SchemaBridge
