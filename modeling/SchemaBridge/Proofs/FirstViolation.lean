import SchemaBridge.Proofs.ValidationMeaning

/-!
The violation that a check reports. A value fails at a node in one place only: at the first part, in
the order of the schema, that is not as its node demands, every part before it being valid. The
place is written as the path from the value, which references and branches leave as it is. Main
statement: what is reported is true of the value at the reported path, and it is the first failure.
-/

namespace SchemaBridge

/-- The part of a value that a step leads to. -/
def Json.part? : Json → Segment → Option Json
  | .object members, .key name => members.lookup name
  | .array values, .index position => values[position]?
  | _, _ => none

/-- The part of a value that a path leads to. -/
def InstancePath.value? : InstancePath → Json → Option Json
  | [], value => some value
  | segment :: rest, value => (value.part? segment).bind (value? rest)

/-- What a violation says of a value. -/
def Violation.Holds (s : Schema) (value : Json) : Violation → Prop
  | typeMismatch expected found => expected.accepts value = false ∧ found = JsonType.of value
  | notInEnum reported allowed => reported = value ∧ ∀ literal ∈ allowed, literal.same value = false
  | missingRequired name => ∃ members, value = .object members ∧ members.lookup name = none
  | arityMismatch expected found =>
    ∃ values, value = .array values ∧ values.length = found ∧ found ≠ expected
  | noUnionMatch allowed found =>
    (∀ type ∈ allowed, type.accepts value = false) ∧ found = JsonType.of value
  | brokenReference target => ∃ id, (s.node id).kind = .reference target none

namespace Schema

/-- The node with a number accepts the values of those properties that are present. -/
def ValidProperties (s : Schema) (members : Members) (properties : List (String × NodeId)) : Prop :=
  ∀ p ∈ properties, ∀ v, members.lookup p.1 = some v → s.Valid p.2 v

/-- The first failure of a value at the node with a number: the path to it, and what is broken. -/
inductive Fails (s : Schema) : NodeId → Json → InstancePath → Violation → Prop
  | primitive {id : NodeId} {value : Json} {type : Primitive}
      (hkind : (s.node id).kind = .primitive type)
      (htype : (JsonType.primitive type).accepts value = false) :
      Fails s id value [] (.typeMismatch (.primitive type) (JsonType.of value))
  | enumeration {id : NodeId} {value : Json} {literals : List Json}
      (hkind : (s.node id).kind = .enumeration literals)
      (hliterals : ∀ literal ∈ literals, literal.same value = false) :
      Fails s id value [] (.notInEnum value literals)
  | notArray {id items : NodeId} {value : Json} (hkind : (s.node id).kind = .array items)
      (hvalue : JsonType.array.accepts value = false) :
      Fails s id value [] (.typeMismatch .array (JsonType.of value))
  | element {id items : NodeId} {before after : List Json} {v : Json} {path : InstancePath}
      {violation : Violation} (hkind : (s.node id).kind = .array items)
      (hbefore : ∀ w ∈ before, s.Valid items w) (hfails : Fails s items v path violation) :
      Fails s id (.array (before ++ v :: after)) (.index before.length :: path) violation
  | notTuple {id : NodeId} {ids : List NodeId} {value : Json}
      (hkind : (s.node id).kind = .tuple ids) (hvalue : JsonType.array.accepts value = false) :
      Fails s id value [] (.typeMismatch .array (JsonType.of value))
  | arity {id : NodeId} {ids : List NodeId} {values : List Json}
      (hkind : (s.node id).kind = .tuple ids) (hlength : values.length ≠ ids.length) :
      Fails s id (.array values) [] (.arityMismatch ids.length values.length)
  | position {id c : NodeId} {ids ids' : List NodeId} {before after : List Json} {v : Json}
      {path : InstancePath} {violation : Violation}
      (hkind : (s.node id).kind = .tuple (ids ++ c :: ids')) (hplace : before.length = ids.length)
      (hlength : after.length = ids'.length) (hbefore : ∀ p ∈ ids.zip before, s.Valid p.1 p.2)
      (hfails : Fails s c v path violation) :
      Fails s id (.array (before ++ v :: after)) (.index before.length :: path) violation
  | notObject {id : NodeId} {shape : ObjectShape} {value : Json}
      (hkind : (s.node id).kind = .object shape) (hvalue : JsonType.object.accepts value = false) :
      Fails s id value [] (.typeMismatch .object (JsonType.of value))
  | missing {id : NodeId} {shape : ObjectShape} {members : Members} {before after : List String}
      {name : String} (hkind : (s.node id).kind = .object shape)
      (hrequired : shape.required = before ++ name :: after)
      (hbefore : ∀ other ∈ before, members.lookup other ≠ none)
      (hname : members.lookup name = none) :
      Fails s id (.object members) [] (.missingRequired name)
  | property {id c : NodeId} {shape : ObjectShape} {members : Members}
      {before after : List (String × NodeId)} {name : String} {v : Json} {path : InstancePath}
      {violation : Violation} (hkind : (s.node id).kind = .object shape)
      (hrequired : ∀ other ∈ shape.required, members.lookup other ≠ none)
      (hproperties : shape.properties = before ++ (name, c) :: after)
      (hbefore : s.ValidProperties members before) (hvalue : members.lookup name = some v)
      (hfails : Fails s c v path violation) :
      Fails s id (.object members) (.key name :: path) violation
  | branch {id c : NodeId} {shape : ObjectShape} {members : Members} {before after : List NodeId}
      {path : InstancePath} {violation : Violation} (hkind : (s.node id).kind = .object shape)
      (hrequired : ∀ name ∈ shape.required, members.lookup name ≠ none)
      (hproperties : s.ValidProperties members shape.properties)
      (hallOf : shape.allOf = before ++ c :: after)
      (hbefore : ∀ b ∈ before, s.Valid b (.object members))
      (hfails : Fails s c (.object members) path violation) :
      Fails s id (.object members) path violation
  | reference {id target : NodeId} {value : Json} {text : String} {path : InstancePath}
      {violation : Violation} (hkind : (s.node id).kind = .reference text (some target))
      (hfails : Fails s target value path violation) : Fails s id value path violation
  | unresolved {id : NodeId} {value : Json} {text : String}
      (hkind : (s.node id).kind = .reference text none) :
      Fails s id value [] (.brokenReference text)
  | union {id : NodeId} {value : Json} {types : List JsonType}
      (hkind : (s.node id).kind = .union types)
      (htypes : ∀ type ∈ types, type.accepts value = false) :
      Fails s id value [] (.noUnionMatch types (JsonType.of value))

variable {s : Schema}

/-- A failure is true of the value that its path leads to. -/
theorem Fails.holds {id : NodeId} {value : Json} {path : InstancePath} {violation : Violation}
    (h : s.Fails id value path violation) :
    ∃ w, path.value? value = some w ∧ violation.Holds s w := by
  induction h with
  | primitive _ htype => exact ⟨_, rfl, htype, rfl⟩
  | enumeration _ hliterals => exact ⟨_, rfl, rfl, hliterals⟩
  | notArray _ hvalue => exact ⟨_, rfl, hvalue, rfl⟩
  | element _ _ _ ih =>
      obtain ⟨w, hw, hholds⟩ := ih
      refine ⟨w, ?_, hholds⟩
      rw [InstancePath.value?, Json.part?, List.getElem?_append_right (Nat.le_refl _), Nat.sub_self]
      exact hw
  | notTuple _ hvalue => exact ⟨_, rfl, hvalue, rfl⟩
  | arity _ hlength => exact ⟨_, rfl, _, rfl, rfl, hlength⟩
  | position _ _ _ _ _ ih =>
      obtain ⟨w, hw, hholds⟩ := ih
      refine ⟨w, ?_, hholds⟩
      rw [InstancePath.value?, Json.part?, List.getElem?_append_right (Nat.le_refl _), Nat.sub_self]
      exact hw
  | notObject _ hvalue => exact ⟨_, rfl, hvalue, rfl⟩
  | missing _ _ _ hname => exact ⟨_, rfl, _, rfl, hname⟩
  | property _ _ _ _ hvalue _ ih =>
      obtain ⟨w, hw, hholds⟩ := ih
      refine ⟨w, ?_, hholds⟩
      rw [InstancePath.value?, Json.part?, hvalue]
      exact hw
  | branch _ _ _ _ _ _ ih => exact ih
  | reference _ _ ih => exact ih
  | unresolved hkind => exact ⟨_, rfl, _, hkind⟩
  | union _ htypes => exact ⟨_, rfl, htypes, rfl⟩

/-! ### A failure excludes validity -/

/-- A value that fails at a node is not valid for it. -/
theorem Fails.not_valid {id : NodeId} {value : Json} {path : InstancePath} {violation : Violation}
    (h : s.Fails id value path violation) : ¬s.Valid id value := by
  intro hvalid
  induction h with
  | primitive hkind htype =>
      exact Bool.false_ne_true (htype.symm.trans (hvalid.admits hkind))
  | enumeration hkind hliterals =>
      obtain ⟨literal, hliteral, hsame⟩ := hvalid.admits hkind
      exact Bool.false_ne_true ((hliterals literal hliteral).symm.trans hsame)
  | notArray hkind hvalue =>
      obtain ⟨values, rfl, -⟩ := hvalid.admits hkind
      cases hvalue
  | element hkind _ _ ih =>
      obtain ⟨values, hvalues, hall⟩ := hvalid.admits hkind
      cases hvalues
      exact ih (hall _ List.mem_append_cons_self)
  | notTuple hkind hvalue =>
      obtain ⟨values, rfl, -⟩ := hvalid.admits hkind
      cases hvalue
  | arity hkind hlength =>
      obtain ⟨values, hvalues, heq, -⟩ := hvalid.admits hkind
      cases hvalues
      exact hlength heq
  | position hkind hplace _ _ _ ih =>
      obtain ⟨values, hvalues, -, hall⟩ := hvalid.admits hkind
      cases hvalues
      rw [List.zip_append hplace.symm, List.zip_cons_cons] at hall
      exact ih (hall _ List.mem_append_cons_self)
  | notObject hkind hvalue =>
      obtain ⟨members, rfl, -⟩ := hvalid.admits hkind
      cases hvalue
  | missing hkind hrequired _ hname =>
      obtain ⟨members, hmembers, hpresent, -⟩ := hvalid.admits hkind
      cases hmembers
      rw [hrequired] at hpresent
      exact hpresent _ List.mem_append_cons_self hname
  | property hkind _ hproperties _ hvalue _ ih =>
      obtain ⟨members, hmembers, -, hall, -⟩ := hvalid.admits hkind
      cases hmembers
      rw [hproperties] at hall
      exact ih (hall _ List.mem_append_cons_self _ hvalue)
  | branch hkind _ _ hallOf _ _ ih =>
      obtain ⟨members, -, -, -, hall⟩ := hvalid.admits hkind
      rw [hallOf] at hall
      exact ih (hall _ List.mem_append_cons_self)
  | reference hkind _ ih =>
      obtain ⟨target, htarget, -, hrest⟩ := hvalid.admits hkind
      cases htarget
      exact ih hrest
  | unresolved hkind =>
      obtain ⟨target, htarget, -⟩ := hvalid.admits hkind
      cases htarget
  | union hkind htypes =>
      obtain ⟨type, htype, haccepts⟩ := hvalid.admits hkind
      exact Bool.false_ne_true ((htypes type htype).symm.trans haccepts)

/-! ### A value fails in one place -/

/-- A list splits in one way at the first element that lacks a property. -/
theorem split_unique {α : Type} {P : α → Prop} {before before' after after' : List α} {v v' : α}
    (hbefore : ∀ w ∈ before, P w) (hv : ¬P v) (hbefore' : ∀ w ∈ before', P w) (hv' : ¬P v')
    (h : before' ++ v' :: after' = before ++ v :: after) : before' = before ∧ v' = v := by
  induction before generalizing before' with
  | nil =>
      cases before' with
      | nil => exact ⟨rfl, (List.cons.inj h).1⟩
      | cons w rest =>
          obtain ⟨rfl, -⟩ := List.cons.inj h
          exact absurd (hbefore' _ (List.mem_cons_self ..)) hv
  | cons w rest ih =>
      cases before' with
      | nil =>
          obtain ⟨rfl, -⟩ := List.cons.inj h
          exact absurd (hbefore _ (List.mem_cons_self ..)) hv'
      | cons w' rest' =>
          obtain ⟨rfl, hrest⟩ := List.cons.inj h
          obtain ⟨hsame, hvalue⟩ := ih (List.forall_mem_cons.mp hbefore).2
            (List.forall_mem_cons.mp hbefore').2 hrest
          exact ⟨by rw [hsame], hvalue⟩

theorem split_property_unique {members : Members}
    {properties before before' after after' : List (String × NodeId)} {name name' : String}
    {c c' : NodeId} {v v' : Json} (h : properties = before ++ (name, c) :: after)
    (hbefore : s.ValidProperties members before) (hvalue : members.lookup name = some v)
    (hv : ¬s.Valid c v) (h' : properties = before' ++ (name', c') :: after')
    (hbefore' : s.ValidProperties members before') (hvalue' : members.lookup name' = some v')
    (hv' : ¬s.Valid c' v') : name' = name ∧ c' = c ∧ v' = v := by
  obtain ⟨-, heq⟩ := split_unique hbefore (fun hall => hv (hall v hvalue)) hbefore'
    (fun hall => hv' (hall v' hvalue')) (h'.symm.trans h)
  cases heq
  rw [hvalue] at hvalue'
  cases hvalue'
  exact ⟨rfl, rfl, rfl⟩

/-- A tuple splits in one way at the first element that is not valid for its node. -/
theorem split_position_unique {earlier earlier' later later' : List NodeId} {c c' : NodeId}
    {before before' after after' : List Json} {v v' : Json}
    (hids : earlier ++ c :: later = earlier' ++ c' :: later')
    (hvalues : before ++ v :: after = before' ++ v' :: after')
    (hplace : before.length = earlier.length) (hplace' : before'.length = earlier'.length)
    (hbefore : ∀ p ∈ earlier.zip before, s.Valid p.1 p.2) (hv : ¬s.Valid c v)
    (hbefore' : ∀ p ∈ earlier'.zip before', s.Valid p.1 p.2) (hv' : ¬s.Valid c' v') :
    before'.length = before.length ∧ c' = c ∧ v' = v := by
  have hzip := congrArg₂ List.zip hids hvalues
  rw [List.zip_append hplace.symm, List.zip_append hplace'.symm, List.zip_cons_cons,
    List.zip_cons_cons] at hzip
  obtain ⟨hsame, heq⟩ := split_unique hbefore hv hbefore' hv' hzip.symm
  have hlength := congrArg List.length hsame
  rw [List.length_zip, List.length_zip, hplace, hplace', Nat.min_self, Nat.min_self] at hlength
  exact ⟨by rw [hplace, hplace', hlength], congrArg Prod.fst heq, congrArg Prod.snd heq⟩

/-- A value fails at a node in one place and in one way. -/
theorem Fails.unique {id : NodeId} {value : Json} {path path' : InstancePath}
    {violation violation' : Violation} (h : s.Fails id value path violation)
    (h' : s.Fails id value path' violation') : path' = path ∧ violation' = violation := by
  induction h generalizing path' violation' with
  | primitive hkind =>
      cases h' with
      | primitive hkind' =>
          cases hkind.symm.trans hkind'
          exact ⟨rfl, rfl⟩
      | _ => simp_all only [reduceCtorEq]
  | enumeration hkind =>
      cases h' with
      | enumeration hkind' =>
          cases hkind.symm.trans hkind'
          exact ⟨rfl, rfl⟩
      | _ => simp_all only [reduceCtorEq]
  | notArray hkind hvalue =>
      cases h' with
      | notArray => exact ⟨rfl, rfl⟩
      | element => cases hvalue
      | _ => simp_all only [reduceCtorEq]
  | element hkind hbefore hfails ih =>
      generalize hvalues : Json.array _ = value at h'
      cases h' with
      | notArray _ hvalue => rw [← hvalues] at hvalue; cases hvalue
      | element hkind' hbefore' hfails' =>
          cases hkind.symm.trans hkind'
          obtain ⟨rfl, rfl⟩ := split_unique hbefore hfails.not_valid hbefore' hfails'.not_valid
            (Json.array.inj hvalues).symm
          obtain ⟨rfl, rfl⟩ := ih hfails'
          exact ⟨rfl, rfl⟩
      | _ => simp_all only [reduceCtorEq]
  | notTuple hkind hvalue =>
      cases h' with
      | notTuple => exact ⟨rfl, rfl⟩
      | arity => cases hvalue
      | position => cases hvalue
      | _ => simp_all only [reduceCtorEq]
  | arity hkind hlength =>
      generalize hvalues : Json.array _ = value at h'
      cases h' with
      | notTuple _ hvalue => rw [← hvalues] at hvalue; cases hvalue
      | arity hkind' =>
          cases hkind.symm.trans hkind'
          cases hvalues
          exact ⟨rfl, rfl⟩
      | position hkind' hplace hafter =>
          cases hkind.symm.trans hkind'
          cases hvalues
          refine absurd ?_ hlength
          simp only [List.length_append, List.length_cons, hplace, hafter]
      | _ => simp_all only [reduceCtorEq]
  | position hkind hplace hafter hbefore hfails ih =>
      generalize hvalues : Json.array _ = value at h'
      cases h' with
      | notTuple _ hvalue => rw [← hvalues] at hvalue; cases hvalue
      | arity hkind' hlength =>
          cases hkind.symm.trans hkind'
          cases hvalues
          refine absurd ?_ hlength
          simp only [List.length_append, List.length_cons, hplace, hafter]
      | position hkind' hplace' hafter' hbefore' hfails' =>
          have hids := Kind.tuple.inj (hkind.symm.trans hkind')
          obtain ⟨hlength, rfl, rfl⟩ := split_position_unique hids (Json.array.inj hvalues) hplace
            hplace' hbefore hfails.not_valid hbefore' hfails'.not_valid
          obtain ⟨rfl, rfl⟩ := ih hfails'
          rw [hlength]
          exact ⟨rfl, rfl⟩
      | _ => simp_all only [reduceCtorEq]
  | notObject hkind hvalue =>
      cases h' with
      | notObject => exact ⟨rfl, rfl⟩
      | missing => cases hvalue
      | property => cases hvalue
      | branch => cases hvalue
      | _ => simp_all only [reduceCtorEq]
  | @missing _ shape members _ _ _ hkind hrequired hbefore hname =>
      have habsent : ¬∀ other ∈ shape.required, members.lookup other ≠ none := fun hpresent =>
        hpresent _ (hrequired ▸ List.mem_append_cons_self) hname
      cases h' with
      | notObject _ hvalue => cases hvalue
      | missing hkind' hrequired' hbefore' hname' =>
          cases hkind.symm.trans hkind'
          obtain ⟨-, rfl⟩ := split_unique hbefore (fun h => h hname) hbefore' (fun h => h hname')
            (hrequired'.symm.trans hrequired)
          exact ⟨rfl, rfl⟩
      | property hkind' hpresent =>
          cases hkind.symm.trans hkind'
          exact (habsent hpresent).elim
      | branch hkind' hpresent =>
          cases hkind.symm.trans hkind'
          exact (habsent hpresent).elim
      | _ => simp_all only [reduceCtorEq]
  | property hkind hrequired hproperties hbefore hvalue hfails ih =>
      cases h' with
      | notObject _ hvalue => cases hvalue
      | missing hkind' hrequired' _ hname =>
          cases hkind.symm.trans hkind'
          exact (hrequired _ (hrequired' ▸ List.mem_append_cons_self) hname).elim
      | property hkind' _ hproperties' hbefore' hvalue' hfails' =>
          cases hkind.symm.trans hkind'
          obtain ⟨rfl, rfl, rfl⟩ := split_property_unique hproperties hbefore hvalue
            hfails.not_valid hproperties' hbefore' hvalue' hfails'.not_valid
          obtain ⟨rfl, rfl⟩ := ih hfails'
          exact ⟨rfl, rfl⟩
      | branch hkind' _ hall =>
          cases hkind.symm.trans hkind'
          rw [hproperties] at hall
          exact (hfails.not_valid (hall _ List.mem_append_cons_self _ hvalue)).elim
      | _ => simp_all only [reduceCtorEq]
  | branch hkind hrequired hproperties hallOf hbefore hfails ih =>
      cases h' with
      | notObject _ hvalue => cases hvalue
      | missing hkind' hrequired' _ hname =>
          cases hkind.symm.trans hkind'
          exact (hrequired _ (hrequired' ▸ List.mem_append_cons_self) hname).elim
      | property hkind' _ hproperties' _ hvalue' hfails' =>
          cases hkind.symm.trans hkind'
          rw [hproperties'] at hproperties
          exact (hfails'.not_valid (hproperties _ List.mem_append_cons_self _ hvalue')).elim
      | branch hkind' _ _ hallOf' hbefore' hfails' =>
          cases hkind.symm.trans hkind'
          obtain ⟨-, rfl⟩ := split_unique hbefore hfails.not_valid hbefore' hfails'.not_valid
            (hallOf'.symm.trans hallOf)
          exact ih hfails'
      | _ => simp_all only [reduceCtorEq]
  | reference hkind _ ih =>
      cases h' with
      | reference hkind' hfails' =>
          cases hkind.symm.trans hkind'
          exact ih hfails'
      | _ => simp_all only [reduceCtorEq, Kind.reference.injEq, and_false]
  | unresolved hkind =>
      cases h' with
      | unresolved hkind' =>
          cases hkind.symm.trans hkind'
          exact ⟨rfl, rfl⟩
      | _ => simp_all only [reduceCtorEq, Kind.reference.injEq, and_false]
  | union hkind =>
      cases h' with
      | union hkind' =>
          cases hkind.symm.trans hkind'
          exact ⟨rfl, rfl⟩
      | _ => simp_all only [reduceCtorEq]

end Schema

/-! ### What a check reports -/

namespace Validation

variable {s : Schema}

/-- A check reports at its frame what fails there. -/
def Reports (s : Schema) (check : Checker) : Prop :=
  ∀ id f path violation, check id f = .error (.invalid path violation) →
    ∃ rest, path = f.path ++ rest ∧ s.Fails id f.value rest violation

theorem check_valid {budget : Nat} {id : NodeId} {f : Frame} (h : check s budget id f = .ok ()) :
    s.Valid id f.value :=
  ((check_ok id f).mp h).validWithin.valid

theorem andThen_error {x y : Except ValidationError Unit} {e : ValidationError}
    (h : (do x; y) = .error e) : x = .error e ∨ x = .ok () ∧ y = .error e := by
  cases x with
  | error e' => exact .inl h
  | ok u => exact .inr ⟨rfl, h⟩

theorem fail_error {f : Frame} {violation violation' : Violation} {path : InstancePath}
    (h : f.fail violation = .error (.invalid path violation')) :
    path = f.path ++ [] ∧ violation' = violation := by
  rw [Frame.fail] at h
  cases h
  exact ⟨(List.append_nil _).symm, rfl⟩

theorem expect_error {f : Frame} {type : JsonType} {violation : Violation} {path : InstancePath}
    (h : f.expect type = .error (.invalid path violation)) :
    path = f.path ++ [] ∧ type.accepts f.value = false ∧
      violation = .typeMismatch type (JsonType.of f.value) := by
  rw [Frame.expect] at h
  split at h
  · cases h
  · rename_i haccepts
    obtain ⟨hpath, hviolation⟩ := fail_error h
    exact ⟨hpath, Bool.not_eq_true _ ▸ haccepts, hviolation⟩

section

variable {budget : Nat} (hreports : Reports s (check s budget))

include hreports

theorem checkElements_error {f : Frame} {items : NodeId} {index : Nat} {values : List Json}
    {path : InstancePath} {violation : Violation}
    (h : checkElements (check s budget) f items index values = .error (.invalid path violation)) :
    ∃ before v after rest, values = before ++ v :: after ∧ (∀ w ∈ before, s.Valid items w) ∧
      path = f.path ++ .index (index + before.length) :: rest ∧ s.Fails items v rest violation := by
  induction values generalizing index with
  | nil => cases h
  | cons v values ih =>
      rw [checkElements] at h
      rcases andThen_error h with hfirst | ⟨hfirst, hlater⟩
      · obtain ⟨rest, hpath, hfails⟩ := hreports _ _ _ _ hfirst
        refine ⟨[], v, values, rest, rfl, by simp, ?_, hfails⟩
        rw [hpath]
        simp [Frame.descend, InstancePath.child]
      · obtain ⟨before, w, after, rest, hvalues, hbefore, hpath, hfails⟩ := ih hlater
        refine ⟨v :: before, w, after, rest, by rw [hvalues]; rfl, ?_, ?_, hfails⟩
        · exact List.forall_mem_cons.mpr ⟨check_valid hfirst, hbefore⟩
        · rw [hpath, List.length_cons, Nat.add_right_comm, Nat.add_assoc]

theorem checkTuple_error {f : Frame} {index : Nat} {ids : List NodeId} {values : List Json}
    {path : InstancePath} {violation : Violation} (hlength : values.length = ids.length)
    (h : checkTuple (check s budget) f index ids values = .error (.invalid path violation)) :
    ∃ earlier c later before v after rest, ids = earlier ++ c :: later ∧
      values = before ++ v :: after ∧ before.length = earlier.length ∧
      after.length = later.length ∧ (∀ p ∈ earlier.zip before, s.Valid p.1 p.2) ∧
      path = f.path ++ .index (index + before.length) :: rest ∧ s.Fails c v rest violation := by
  induction ids generalizing index values with
  | nil => cases values <;> cases h
  | cons c ids ih =>
      cases values with
      | nil => cases hlength
      | cons v values =>
          rw [checkTuple] at h
          rcases andThen_error h with hfirst | ⟨hfirst, hlater⟩
          · obtain ⟨rest, hpath, hfails⟩ := hreports _ _ _ _ hfirst
            refine ⟨[], c, ids, [], v, values, rest, rfl, rfl, rfl, Nat.succ.inj hlength, by simp,
              ?_, hfails⟩
            rw [hpath]
            simp [Frame.descend, InstancePath.child]
          · obtain ⟨earlier, c', later, before, w, after, rest, hids, hvalues, hplace, hafter,
              hbefore, hpath, hfails⟩ := ih (Nat.succ.inj hlength) hlater
            refine ⟨c :: earlier, c', later, v :: before, w, after, rest, by rw [hids]; rfl,
              by rw [hvalues]; rfl, congrArg (· + 1) hplace, hafter, ?_, ?_, hfails⟩
            · rw [List.zip_cons_cons]
              exact List.forall_mem_cons.mpr ⟨check_valid hfirst, hbefore⟩
            · rw [hpath, List.length_cons, Nat.add_right_comm, Nat.add_assoc]

theorem checkProperties_error {f : Frame} {members : Members} {properties : List (String × NodeId)}
    {path : InstancePath} {violation : Violation}
    (h : checkProperties (check s budget) f members properties = .error (.invalid path violation)) :
    ∃ before name c after v rest, properties = before ++ (name, c) :: after ∧
      s.ValidProperties members before ∧ members.lookup name = some v ∧
      path = f.path ++ .key name :: rest ∧ s.Fails c v rest violation := by
  induction properties with
  | nil => cases h
  | cons p properties ih =>
      obtain ⟨name, c⟩ := p
      -- whatever the first property is, what is reported after it is reported for a later one
      have hlater : (∀ w, members.lookup name = some w → s.Valid c w) →
          checkProperties (check s budget) f members properties = .error (.invalid path violation) →
          ∃ before name' c' after v rest, (name, c) :: properties = before ++ (name', c') :: after ∧
            s.ValidProperties members before ∧ members.lookup name' = some v ∧
            path = f.path ++ .key name' :: rest ∧ s.Fails c' v rest violation := by
        intro hfirst hrun
        obtain ⟨before, name', c', after, v, rest, hproperties, hbefore, hrest⟩ := ih hrun
        refine ⟨(name, c) :: before, name', c', after, v, rest, by rw [hproperties]; rfl, ?_, hrest⟩
        exact List.forall_mem_cons.mpr ⟨hfirst, hbefore⟩
      rw [checkProperties] at h
      split at h
      · rename_i v hv
        rcases andThen_error h with hfirst | ⟨hfirst, hrun⟩
        · obtain ⟨rest, hpath, hfails⟩ := hreports _ _ _ _ hfirst
          refine ⟨[], name, c, properties, v, rest, rfl, List.forall_mem_nil _, hv, ?_, hfails⟩
          rw [hpath]
          simp [Frame.descend, InstancePath.child]
        · refine hlater (fun w hw => ?_) hrun
          rw [hv] at hw
          cases hw
          exact check_valid hfirst
      · rename_i hv
        rcases andThen_error h with hfirst | ⟨-, hrun⟩
        · cases hfirst
        · refine hlater (fun w hw => ?_) hrun
          rw [hv] at hw
          cases hw

theorem checkBranches_error {f : Frame} {ids : List NodeId} {path : InstancePath}
    {violation : Violation}
    (h : checkBranches (check s budget) f ids = .error (.invalid path violation)) :
    ∃ before c after rest, ids = before ++ c :: after ∧ (∀ b ∈ before, s.Valid b f.value) ∧
      path = f.path ++ rest ∧ s.Fails c f.value rest violation := by
  induction ids with
  | nil => cases h
  | cons c ids ih =>
      rw [checkBranches] at h
      rcases andThen_error h with hfirst | ⟨hfirst, hlater⟩
      · obtain ⟨rest, hpath, hfails⟩ := hreports _ _ _ _ hfirst
        exact ⟨[], c, ids, rest, rfl, by simp, hpath, hfails⟩
      · obtain ⟨before, c', after, rest, hids, hbefore, hrest⟩ := ih hlater
        refine ⟨c :: before, c', after, rest, by rw [hids]; rfl, ?_, hrest⟩
        exact List.forall_mem_cons.mpr ⟨check_valid hfirst, hbefore⟩

theorem checkKind_array_reports {id items : NodeId} {f : Frame} {path : InstancePath}
    {violation : Violation} (hkind : (s.node id).kind = .array items)
    (h : checkKind (check s budget) (.array items) f = .error (.invalid path violation)) :
    ∃ rest, path = f.path ++ rest ∧ s.Fails id f.value rest violation := by
  rw [checkKind] at h
  split at h
  · rename_i values hvalue
    obtain ⟨before, v, after, rest, rfl, hbefore, hpath, hfails⟩ := checkElements_error hreports h
    rw [Nat.zero_add] at hpath
    rw [hvalue]
    exact ⟨_, hpath, .element hkind hbefore hfails⟩
  · obtain ⟨hpath, haccepts, rfl⟩ := expect_error h
    exact ⟨[], hpath, .notArray hkind haccepts⟩

theorem checkKind_tuple_reports {id : NodeId} {ids : List NodeId} {f : Frame} {path : InstancePath}
    {violation : Violation} (hkind : (s.node id).kind = .tuple ids)
    (h : checkKind (check s budget) (.tuple ids) f = .error (.invalid path violation)) :
    ∃ rest, path = f.path ++ rest ∧ s.Fails id f.value rest violation := by
  rw [checkKind] at h
  split at h
  · rename_i values hvalue
    split at h
    · rename_i hlength
      obtain ⟨earlier, c, later, before, v, after, rest, rfl, rfl, hplace, hafter, hbefore, hpath,
        hfails⟩ := checkTuple_error hreports hlength h
      rw [Nat.zero_add] at hpath
      rw [hvalue]
      exact ⟨_, hpath, .position hkind hplace hafter hbefore hfails⟩
    · rename_i hlength
      obtain ⟨hpath, rfl⟩ := fail_error h
      rw [hvalue]
      exact ⟨[], hpath, .arity hkind hlength⟩
  · obtain ⟨hpath, haccepts, rfl⟩ := expect_error h
    exact ⟨[], hpath, .notTuple hkind haccepts⟩

/-- An object fails at a name that is missing, or else in a property, or else in a branch. -/
theorem checkKind_object_reports {id : NodeId} {shape : ObjectShape} {f : Frame}
    {path : InstancePath} {violation : Violation} (hkind : (s.node id).kind = .object shape)
    (h : checkKind (check s budget) (.object shape) f = .error (.invalid path violation)) :
    ∃ rest, path = f.path ++ rest ∧ s.Fails id f.value rest violation := by
  rw [checkKind] at h
  split at h
  · rename_i members hvalue
    split at h
    · rename_i name hmissing
      obtain ⟨hname, before, after, hrequired, hbefore⟩ :=
        List.find?_eq_some_iff_append.mp hmissing
      obtain ⟨hpath, rfl⟩ := fail_error h
      rw [hvalue]
      refine ⟨[], hpath, .missing hkind hrequired (fun other hother hnone => ?_)
        (Option.isNone_iff_eq_none.mp hname)⟩
      have hpresent := hbefore other hother
      rw [hnone] at hpresent
      cases hpresent
    · rename_i hpresent
      have hrequired := find?_missing_eq_none.mp hpresent
      rcases andThen_error h with hproperty | ⟨hproperties, hbranch⟩
      · obtain ⟨before, name, c, after, v, rest, hsplit, hbefore, hv, hpath, hfails⟩ :=
          checkProperties_error hreports hproperty
        rw [hvalue]
        exact ⟨_, hpath, .property hkind hrequired hsplit hbefore hv hfails⟩
      · obtain ⟨before, c, after, rest, hsplit, hbefore, hpath, hfails⟩ :=
          checkBranches_error hreports hbranch
        have hvalid := fun p hp v hv =>
          ((checkProperties_ok check_ok).mp hproperties p hp v hv).validWithin.valid
        rw [hvalue] at hbefore hfails ⊢
        exact ⟨rest, hpath, .branch hkind hrequired hvalid hsplit hbefore hfails⟩
  · obtain ⟨hpath, haccepts, rfl⟩ := expect_error h
    exact ⟨[], hpath, .notObject hkind haccepts⟩

/-- What a check by a kind reports is the first failure at a node of that kind. -/
theorem checkKind_reports {id : NodeId} {f : Frame} {path : InstancePath} {violation : Violation}
    (h : checkKind (check s budget) (s.node id).kind f = .error (.invalid path violation)) :
    ∃ rest, path = f.path ++ rest ∧ s.Fails id f.value rest violation := by
  cases hkind : (s.node id).kind with
  | untyped =>
      rw [hkind] at h
      cases h
  | primitive type =>
      rw [hkind] at h
      obtain ⟨hpath, haccepts, rfl⟩ := expect_error h
      exact ⟨[], hpath, .primitive hkind haccepts⟩
  | enumeration literals =>
      rw [hkind, checkKind] at h
      split at h
      · cases h
      · rename_i hany
        obtain ⟨hpath, rfl⟩ := fail_error h
        refine ⟨[], hpath, .enumeration hkind fun literal hliteral => ?_⟩
        exact Bool.not_eq_true _ ▸ fun hsame => hany (List.any_eq_true.mpr ⟨_, hliteral, hsame⟩)
  | array items => exact checkKind_array_reports hreports hkind (hkind ▸ h)
  | tuple ids => exact checkKind_tuple_reports hreports hkind (hkind ▸ h)
  | object shape => exact checkKind_object_reports hreports hkind (hkind ▸ h)
  | reference text resolved =>
      cases resolved with
      | none =>
          rw [hkind, checkKind] at h
          obtain ⟨hpath, rfl⟩ := fail_error h
          exact ⟨[], hpath, .unresolved hkind⟩
      | some target =>
          simp only [hkind, checkKind] at h
          split at h
          · cases h
          · obtain ⟨rest, hpath, hfails⟩ := hreports _ _ _ _ h
            exact ⟨rest, hpath, .reference hkind hfails⟩
  | union types =>
      rw [hkind, checkKind] at h
      split at h
      · cases h
      · rename_i hany
        obtain ⟨hpath, rfl⟩ := fail_error h
        refine ⟨[], hpath, .union hkind fun type htype => ?_⟩
        exact Bool.not_eq_true _ ▸ fun haccepts => hany (List.any_eq_true.mpr ⟨_, htype, haccepts⟩)

end

theorem check_reports (budget : Nat) : Reports s (check s budget) := by
  induction budget with
  | zero => exact fun _ _ _ _ h => nomatch h
  | succ budget ih => exact fun _ _ _ _ h => checkKind_reports ih h

end Validation

namespace Schema

/-- The violation that is reported is true of the value at the path that is reported. It is the
first failure: every check before it succeeds, and the value fails nowhere else in that sense. -/
theorem validate_invalid {s : Schema} {value : Json} {path : InstancePath} {violation : Violation}
    (h : s.validate value = .error (.invalid path violation)) :
    (∃ w, path.value? value = some w ∧ violation.Holds s w) ∧
      s.Fails s.root value path violation ∧
      ∀ path' violation', s.Fails s.root value path' violation' →
        path' = path ∧ violation' = violation := by
  obtain ⟨rest, hpath, hfails⟩ := Validation.check_reports _ _ _ _ _ h
  rw [List.nil_append] at hpath
  rw [hpath]
  exact ⟨hfails.holds, hfails, fun _ _ h' => hfails.unique h'⟩

/-- An object with a branch that is reached through a reference, and with a list of such objects. -/
def orderSchema : Schema where
  nodes := #[{ kind := .primitive .integer }, { kind := .reference "#" (some 5) },
    { kind := .array 1 }, { kind := .reference "#/definitions/audit" (some 7) },
    { kind := .union [.primitive .string, .primitive .null] },
    { kind := .object {
      properties := [("id", 0), ("parts", 2), ("note", 4)], required := ["id"], allOf := [3] } },
    { kind := .primitive .string }, { kind := .object { properties := [("author", 6)] } }]
  root := 5

/-- The second part has a note and an author that are not as they should be. -/
def orderInstance : Json :=
  .object [("parts", .array [.object [("id", .number (.integer 1))],
      .object [("author", .number (.integer 2)), ("note", .bool true),
        ("id", .number (.integer 2))]]),
    ("id", .number (.integer 0)), ("author", .null)]

def orderPath : InstancePath :=
  [.key "parts", .index 1, .key "note"]

def orderViolation : Violation :=
  .noUnionMatch [.primitive .string, .primitive .null] (.primitive .boolean)

theorem validate_invalid_order :
    orderSchema.validate orderInstance = .error (.invalid orderPath orderViolation) ∧
      (∃ w, orderPath.value? orderInstance = some w ∧ orderViolation.Holds orderSchema w) ∧
      orderSchema.Fails orderSchema.root orderInstance orderPath orderViolation := by
  have herror : orderSchema.validate orderInstance =
      .error (.invalid orderPath orderViolation) := by
    cbv
  obtain ⟨hholds, hfails, -⟩ := validate_invalid herror
  exact ⟨herror, hholds, hfails⟩

end Schema

end SchemaBridge
