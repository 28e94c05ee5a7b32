import SchemaBridge.Proofs.AvroSteps
import SchemaBridge.Proofs.ResolvedReferences

/-!
What a conversion to Avro defines and mentions. Every node is turned into a type whose text defines
the names that were issued on the way; the parts of a node are taken in the order of the text. Main
statement: the text of an Avro schema follows the grammar, its definitions are those that were
issued, each with a name of its own, and every other name is primitive or defined before.
-/

namespace SchemaBridge

namespace AvroEmission

open AvroType (eventsOfAll eventsOfFields)
open Steps

/-- The names in the text of a type, if there is one. -/
def eventsOf : Option AvroType → List NameEvent
  | some type => type.events
  | none => []

/-- The types that an emitter returns define the names that it issues. -/
def Emits (emit : TypeEmitter) : Prop :=
  ∀ {id : NodeId} {hint : Option String} {p p' : Progress} {result : Option AvroType},
    (emit id hint).run p = .ok (result, p') →
    Issues p (eventsOf result) p' ∧ ∀ type, result = some type → type.Flat

/-- The fields that an emitter returns define the names that it issues. -/
def EmitsFields (emit : NodeId → Emitter (List (AvroField AvroType))) : Prop :=
  ∀ {id : NodeId} {p p' : Progress} {fields : List (AvroField AvroType)},
    (emit id).run p = .ok (fields, p') →
    Issues p (eventsOfFields fields) p' ∧ ∀ f ∈ fields, f.type.Flat

/-! ### Unions and tuples -/

/-- A type that may stand in a union. -/
def FlatMember (type : AvroType) : Prop :=
  type.Flat ∧ type.isUnion = false

theorem flat_some {type : AvroType} (h : type.Flat) : ∀ t, some type = some t → t.Flat := by
  rintro _ ⟨⟩
  exact h

theorem eventsOfAll_named (names : List String) :
    eventsOfAll (names.map .named) = names.map .mention := by
  induction names with
  | nil => rfl
  | cons name rest ih =>
      rw [List.map_cons, List.map_cons, eventsOfAll, ih]
      rfl

theorem flat_union_named (names : List String) : (AvroType.union (names.map .named)).Flat := by
  refine .union (fun m hm => ?_) fun m hm => ?_
  · obtain ⟨name, -, rfl⟩ := List.mem_map.mp hm
    exact .named name
  · obtain ⟨name, -, rfl⟩ := List.mem_map.mp hm
    rfl

theorem eventsOfAll_alternatives (type : AvroType) :
    eventsOfAll (alternatives type) = type.events := by
  cases type with
  | union members => rfl
  | _ => simp [alternatives, eventsOfAll]

theorem flatMember_alternatives {type : AvroType} (h : type.Flat) :
    ∀ m ∈ alternatives type, FlatMember m := by
  cases h with
  | union hmembers hflat => exact fun m hm => ⟨hmembers m hm, hflat m hm⟩
  | named name => simpa [alternatives] using ⟨.named name, rfl⟩
  | array hitems => simpa [alternatives] using ⟨.array hitems, rfl⟩
  | enumeration name symbols => simpa [alternatives] using ⟨.enumeration name symbols, rfl⟩
  | record hfields => simpa [alternatives] using ⟨.record hfields, rfl⟩

theorem mem_definitions_eventsOfAll {types : List AvroType} {type : AvroType} (hmem : type ∈ types)
    {name : String} (hname : name ∈ definitions type.events) :
    name ∈ definitions (eventsOfAll types) := by
  induction types with
  | nil => cases hmem
  | cons first rest ih =>
      rw [eventsOfAll, definitions_append, List.mem_append]
      rcases List.mem_cons.mp hmem with rfl | hrest
      · exact .inl hname
      · exact .inr (ih hrest)

theorem mem_addNew {types new : List AvroType} {type : AvroType} (h : type ∈ addNew types new) :
    type ∈ types ∨ type ∈ new := by
  induction new generalizing types with
  | nil => exact .inl h
  | cons first rest ih =>
      rw [addNew] at h
      split at h
      · exact (ih h).imp_right (List.mem_cons_of_mem _)
      · rcases ih h with hmem | hmem
        · rcases List.mem_append.mp hmem with hmem | hmem
          · exact .inl hmem
          · rw [List.mem_singleton.mp hmem]
            exact .inr List.mem_cons_self
        · exact .inr (List.mem_cons_of_mem _ hmem)

/-- A type that is dropped because it is there already drops no definition. -/
theorem addNew_grounded {types new : List AvroType} {known known' : List String}
    (h : Grounded known (eventsOfAll new) known')
    (htypes : ∀ name ∈ definitions (eventsOfAll types), name ∈ known) :
    ∃ kept, addNew types new = types ++ kept ∧ Grounded known (eventsOfAll kept) known' := by
  induction new generalizing types known with
  | nil => exact ⟨[], by rw [addNew, List.append_nil], h⟩
  | cons type rest ih =>
      rw [eventsOfAll] at h
      obtain ⟨mid, htype, hrest⟩ := h.of_append
      rw [addNew]
      split
      · rename_i hmem
        obtain rfl := htype.known_eq_of_subset fun name hname =>
          htypes name (mem_definitions_eventsOfAll hmem hname)
        exact ih hrest htypes
      · have hboth : ∀ name ∈ definitions (eventsOfAll (types ++ [type])), name ∈ mid := by
          intro name hname
          rw [htype.known_eq, List.mem_append, List.mem_reverse]
          simp only [AvroType.eventsOfAll_append, definitions_append, List.mem_append, eventsOfAll,
            List.append_nil] at hname
          exact hname.symm.imp_right (htypes name)
        obtain ⟨kept, heq, hgrounded⟩ := ih hrest hboth
        refine ⟨type :: kept, by rw [heq, List.append_assoc]; rfl, ?_⟩
        rw [eventsOfAll]
        exact htype.append hgrounded

/-! ### Parts in order -/

section

variable {emit : TypeEmitter} (hemit : Emits emit)

include hemit

theorem emitElements_flat {hint : Option String} {index : Nat} {ids : List NodeId}
    {types found : List AvroType} {p p' : Progress}
    (h : (emitElements emit hint index ids types).run p = .ok (found, p'))
    (hflat : ∀ m ∈ types, FlatMember m) : ∀ m ∈ found, FlatMember m := by
  induction ids generalizing index types p with
  | nil =>
      obtain ⟨rfl, rfl⟩ := pure_ok h
      exact hflat
  | cons id rest ih =>
      rw [emitElements] at h
      obtain ⟨result, p₁, hresult, h⟩ := bind_ok h
      cases result with
      | none => exact (throw_ok h).elim
      | some type =>
          refine ih h fun m hm => ?_
          rcases mem_addNew hm with hm | hm
          · exact hflat m hm
          · exact flatMember_alternatives ((hemit hresult).2 type rfl) m hm

/-- The types of a tuple that are kept define what its elements issue. -/
theorem emitElements_grounded {hint : Option String} {index : Nat} {ids : List NodeId}
    {types found : List AvroType} {p p' : Progress}
    (h : (emitElements emit hint index ids types).run p = .ok (found, p')) (hp : p.Sound)
    (hknown : ∀ name ∈ definitions (eventsOfAll types), name ∈ p.issued) :
    ∃ kept, found = types ++ kept ∧ p'.Sound ∧
      Grounded p.issued (eventsOfAll kept) p'.issued := by
  induction ids generalizing index types p with
  | nil =>
      obtain ⟨rfl, rfl⟩ := pure_ok h
      exact ⟨[], (List.append_nil _).symm, hp, .nil _⟩
  | cons id rest ih =>
      rw [emitElements] at h
      obtain ⟨result, p₁, hresult, h⟩ := bind_ok h
      obtain ⟨hp₁, hgrounded⟩ := (hemit hresult).1 hp
      cases result with
      | none => exact (throw_ok h).elim
      | some type =>
          rw [eventsOf, ← eventsOfAll_alternatives] at hgrounded
          obtain ⟨kept, heq, hkept⟩ := addNew_grounded hgrounded hknown
          replace h : (emitElements emit hint (index + 1) rest
            (addNew types (alternatives type))).run p₁ = .ok (found, p') := h
          rw [heq] at h
          have hknown' : ∀ name ∈ definitions (eventsOfAll (types ++ kept)), name ∈ p₁.issued := by
            intro name hname
            rw [hkept.known_eq, List.mem_append, List.mem_reverse]
            rw [AvroType.eventsOfAll_append, definitions_append, List.mem_append] at hname
            exact hname.symm.imp_right (hknown name)
          obtain ⟨later, rfl, hp', hlater⟩ := ih h hp₁ hknown'
          refine ⟨kept ++ later, List.append_assoc _ _ _, hp', ?_⟩
          rw [AvroType.eventsOfAll_append]
          exact hkept.append hlater

/-- The elements of a tuple, from the first on. -/
theorem emitElements_ok {hint : Option String} {ids : List NodeId} {found : List AvroType}
    {p p' : Progress} (h : (emitElements emit hint 0 ids []).run p = .ok (found, p')) :
    Issues p (eventsOfAll found) p' ∧ ∀ m ∈ found, FlatMember m := by
  refine ⟨fun hp => ?_, emitElements_flat hemit h (by simp)⟩
  obtain ⟨kept, rfl, hp', hgrounded⟩ := emitElements_grounded hemit h hp (by simp [eventsOfAll, definitions])
  exact ⟨hp', hgrounded⟩

/-- The properties of a record: an untyped one is dropped and has issued no name. -/
theorem emitProperties_ok {s : Schema} {record : String} {properties : List (String × NodeId)}
    {fields : List (AvroField AvroType)} {p p' : Progress}
    (h : (emitProperties emit s record properties).run p = .ok (fields, p')) :
    Issues p (eventsOfFields fields) p' ∧ ∀ f ∈ fields, f.type.Flat := by
  induction properties generalizing fields p with
  | nil =>
      obtain ⟨rfl, rfl⟩ := pure_ok h
      exact ⟨.silent rfl rfl, by simp⟩
  | cons property rest ih =>
      obtain ⟨name, id⟩ := property
      rw [emitProperties] at h
      obtain ⟨result, p₁, hresult, h⟩ := bind_ok h
      obtain ⟨hissues, htype⟩ := hemit hresult
      cases result with
      | none =>
          obtain ⟨u, p₂, hwarn, h⟩ := bind_ok h
          cases modifyGet_ok hwarn
          obtain ⟨hrest, hflat⟩ := ih h
          exact ⟨hissues.append (hrest.after rfl rfl), hflat⟩
      | some type =>
          obtain ⟨tail, p₂, htail, h⟩ := bind_ok h
          obtain ⟨rfl, rfl⟩ := pure_ok h
          obtain ⟨hrest, hflat⟩ := ih htail
          exact ⟨hissues.append hrest, List.forall_mem_cons.mpr ⟨htype type rfl, hflat⟩⟩

end

theorem emitBranches_ok {emit : NodeId → Emitter (List (AvroField AvroType))}
    (hemit : EmitsFields emit) {ids : List NodeId} {fields : List (AvroField AvroType)}
    {p p' : Progress} (h : (emitBranches emit ids).run p = .ok (fields, p')) :
    Issues p (eventsOfFields fields) p' ∧ ∀ f ∈ fields, f.type.Flat := by
  induction ids generalizing fields p with
  | nil =>
      obtain ⟨rfl, rfl⟩ := pure_ok h
      exact ⟨.silent rfl rfl, by simp⟩
  | cons id rest ih =>
      rw [emitBranches] at h
      obtain ⟨first, p₁, hfirst, h⟩ := bind_ok h
      obtain ⟨later, p₂, hlater, h⟩ := bind_ok h
      obtain ⟨rfl, rfl⟩ := pure_ok h
      obtain ⟨hissues, hflat⟩ := hemit hfirst
      obtain ⟨hissues', hflat'⟩ := ih hlater
      rw [AvroType.eventsOfFields_append]
      exact ⟨hissues.append hissues', List.forall_mem_append.mpr ⟨hflat, hflat'⟩⟩

/-! ### Nodes -/

/-- What visiting a node comes to. A definition takes the name that it is given, and only a reference
stands for a record of another name. -/
inductive Visited (kind : Kind) (name : String) (p : Progress) :
    Option AvroType → Progress → Prop
  | record {doc : Option String} {fields : List (AvroField AvroType)} {p' : Progress}
      (hkind : ∃ shape, kind = .object shape) (hissues : Issues p (eventsOfFields fields) p')
      (hflat : ∀ f ∈ fields, f.type.Flat) : Visited kind name p (some (.record name doc fields)) p'
  | enumeration {symbols : List String} (hkind : ∃ literals, kind = .enumeration literals) :
      Visited kind name p (some (.enumeration name symbols)) p
  | other {result : Option AvroType} {p' : Progress} (hkind : isDefinition kind = false)
      (hrecord : ∀ name doc fields, result = some (.record name doc fields) →
        kind.isReference = true)
      (hissues : Issues p (eventsOf result) p') (hflat : ∀ type, result = some type → type.Flat) :
      Visited kind name p result p'

/-- A node that is no definition stands for a type that is no record. -/
theorem Visited.type {kind : Kind} {name : String} {p p' : Progress} {type : AvroType}
    (hkind : isDefinition kind = false) (hrecord : ∀ name doc fields, type ≠ .record name doc fields)
    (hissues : Issues p type.events p') (hflat : type.Flat) :
    Visited kind name p (some type) p' :=
  .other hkind (fun _ _ _ heq => (hrecord _ _ _ (Option.some.inj heq)).elim) hissues
    (flat_some hflat)

/-- A visitor of nodes does what it says, whatever the progress. -/
def Visits (s : Schema)
    (visit : NodeId → Option String → String → Emitter (Option AvroType)) : Prop :=
  ∀ {id : NodeId} {hint : Option String} {name : String} {p p' : Progress}
    {result : Option AvroType}, (visit id hint name).run p = .ok (result, p') →
    Visited (s.node id).kind name p result p'

variable {s : Schema} {defaultName : String} {budget : Nat}

theorem VisitStep.visited (hemit : Emits (emit s defaultName budget))
    (hbranch : EmitsFields (branchFields s defaultName budget)) {hint : Option String}
    {name : String} {doc : Option String} {p p' : Progress} {kind : Kind}
    {result : Option AvroType} (h : VisitStep s defaultName budget hint name doc p kind result p') :
    Visited kind name p result p' := by
  cases h with
  | untyped => exact .other rfl (by simp) (.silent rfl rfl) (by simp)
  | primitive type =>
      have hprimitive : ∀ name ∈ [type.avroName], ∃ type : Primitive, name = type.avroName :=
        List.forall_mem_singleton.mpr ⟨type, rfl⟩
      exact .type rfl (by simp) (Issues.primitives hprimitive) (.named _)
  | enumeration => exact .enumeration ⟨_, rfl⟩
  | array hitems =>
      obtain ⟨hissues, hflat⟩ := hemit hitems
      exact .type rfl (by simp) hissues (.array (hflat _ rfl))
  | tuple htypes hitems =>
      obtain ⟨hissues, hmembers⟩ := emitElements_ok hemit htypes
      rcases hitems with rfl | ⟨-, rfl⟩
      · rw [eventsOfAll, eventsOfAll, List.append_nil] at hissues
        exact .type rfl (by simp) hissues (.array (hmembers _ List.mem_cons_self).1)
      · exact .type rfl (by simp) hissues
          (.array (.union (fun m hm => (hmembers m hm).1) fun m hm => (hmembers m hm).2))
  | object hown hinherited =>
      obtain ⟨hissues, hflat⟩ := emitProperties_ok hemit hown
      obtain ⟨hissues', hflat'⟩ := emitBranches_ok hbranch hinherited
      refine .record ⟨_, rfl⟩ ?_ (List.forall_mem_append.mpr ⟨hflat, hflat'⟩)
      rw [AvroType.eventsOfFields_append]
      exact hissues.append hissues'
  | reference _ hnext =>
      obtain ⟨hissues, hflat⟩ := hemit hnext
      exact .other rfl (fun _ _ _ _ => rfl) hissues hflat
  | union hmembers =>
      obtain ⟨-, names, rfl, hnames⟩ := unionMembers_ok hmembers
      have hissues : Issues p (eventsOfAll (names.map .named)) p := by
        rw [eventsOfAll_named]
        exact .primitives hnames
      exact .type rfl (by simp) hissues (flat_union_named names)

theorem EmitStep.issues (hvisit : Visits s (visit s defaultName budget)) {id : NodeId}
    {hint : Option String} {p p' : Progress} {result : Option AvroType}
    (h : EmitStep s defaultName budget id hint p result p') :
    Issues p (eventsOf result) p' ∧ ∀ type, result = some type → type.Flat := by
  cases h with
  | mention hname => exact ⟨.mention hname, flat_some (.named _)⟩
  | define _ hdefinition hdefine hrun =>
      cases hdefine
      cases hvisit hrun with
      | record _ hissues hflat =>
          exact ⟨.define ((hissues.after rfl rfl).before rfl rfl), flat_some (.record hflat)⟩
      | enumeration => exact ⟨.define (.silent rfl rfl), flat_some (.enumeration _ _)⟩
      | other hkind => rw [hkind] at hdefinition; cases hdefinition
  | inline _ hdefinition hrun =>
      cases hvisit hrun with
      | record hkind =>
          obtain ⟨shape, hshape⟩ := hkind
          rw [hshape] at hdefinition
          cases hdefinition
      | enumeration hkind =>
          obtain ⟨literals, hliterals⟩ := hkind
          rw [hliterals] at hdefinition
          cases hdefinition
      | other _ _ hissues hflat => exact ⟨(hissues.after rfl rfl).before rfl rfl, hflat⟩

/-- A branch drops the record around its fields, which has no name, and nothing else. -/
theorem BranchStep.issues (hvisit : Visits s (visit s defaultName budget)) {branch : NodeId}
    {p p' : Progress} {fields : List (AvroField AvroType)}
    (h : BranchStep s defaultName budget branch p fields p') :
    Issues p (eventsOfFields fields) p' ∧ ∀ f ∈ fields, f.type.Flat := by
  cases h with
  | record htarget _ hrun =>
      have hreference := Schema.dereference_not_reference htarget
      cases hvisit hrun with
      | record _ hissues hflat => exact ⟨(hissues.after rfl rfl).before rfl rfl, hflat⟩
      | other _ hrecord => rw [hrecord _ _ _ rfl] at hreference; cases hreference
  | untyped _ _ hrun =>
      cases hvisit hrun with
      | other _ _ hissues => exact ⟨(hissues.after rfl rfl).before rfl rfl, by simp⟩

/-- Every emitter does what it says, whatever its budget. -/
theorem emits_all (s : Schema) (defaultName : String) (budget : Nat) :
    Emits (emit s defaultName budget) ∧ Visits s (visit s defaultName budget) ∧
      EmitsFields (branchFields s defaultName budget) := by
  induction budget with
  | zero =>
      exact ⟨fun h => (throw_ok h).elim, fun h => (throw_ok h).elim, fun h => (throw_ok h).elim⟩
  | succ budget ih =>
      obtain ⟨hemit, hvisit, hbranch⟩ := ih
      exact ⟨fun h => (emit_step h).issues hvisit, fun h => (visit_step h).visited hemit hbranch,
        fun h => (branch_step h).issues hvisit⟩

/-- The type of an object that has no name yet is a record. -/
theorem emit_object {id : NodeId} (hkind : ∃ shape, (s.node id).kind = .object shape)
    {hint : Option String} {p p' : Progress} {result : Option AvroType}
    (h : (emit s defaultName budget id hint).run p = .ok (result, p'))
    (hnew : p.named.lookup id = none) :
    ∃ name doc fields, result = some (.record name doc fields) := by
  obtain ⟨shape, hshape⟩ := hkind
  cases budget with
  | zero => exact (throw_ok h).elim
  | succ budget =>
      cases emit_step h with
      | mention hname => rw [hnew] at hname; cases hname
      | inline _ hdefinition => rw [hshape] at hdefinition; cases hdefinition
      | define _ _ _ hrun =>
          have hvisited := (emits_all s defaultName budget).2.1 hrun
          rw [hshape] at hvisited
          cases hvisited with
          | record => exact ⟨_, _, _, rfl⟩
          | enumeration hkind => obtain ⟨literals, heq⟩ := hkind; cases heq
          | other hkind => cases hkind

end AvroEmission

namespace Schema

open AvroEmission Steps

theorem rootObject_eq_ok {s : Schema} {root : NodeId} {shape : ObjectShape}
    (h : s.rootObject = .ok (root, shape)) :
    s.dereference s.root = .ok root ∧ (s.node root).kind = .object shape := by
  unfold rootObject at h
  obtain ⟨id, hid, h⟩ := of_bind_ok h
  split at h
  · cases h
    exact ⟨hid, ‹_›⟩
  · cases h

theorem rootObject_ok {s : Schema} {root : NodeId} {shape : ObjectShape}
    (h : s.rootObject = .ok (root, shape)) : (s.node root).kind = .object shape :=
  (rootObject_eq_ok h).2

theorem dereference_root {s : Schema} {root : NodeId} {shape : ObjectShape}
    (h : s.rootObject = .ok (root, shape)) : s.dereference s.root = .ok root :=
  (rootObject_eq_ok h).1

/-- The conversion of a schema: a record, made of the root object by an emitter that starts without
names. -/
theorem avroSchema_run {s : Schema} {settings : AvroSettings} {a : AvroSchema}
    (h : s.avroSchema settings = .ok a) :
    ∃ name doc fields root shape progress, a.type = .record name doc fields ∧
      s.rootObject = .ok (root, shape) ∧
      (emit s settings.defaultName s.maxEmissionDepth root none).run {} =
        .ok (some a.type, progress) := by
  unfold avroSchema at h
  obtain ⟨⟨root, shape⟩, hroot, h⟩ := of_bind_ok h
  obtain ⟨⟨type, progress⟩, hrun, h⟩ := of_bind_ok h
  obtain ⟨name, doc, fields, rfl⟩ := emit_object ⟨shape, rootObject_ok hroot⟩ hrun rfl
  cases h
  exact ⟨name, doc, fields, root, shape, progress, rfl, hroot, hrun⟩

/-- An Avro schema is well formed, and its names are sound: the text follows the grammar, the
definitions have distinct names, they are the names that were issued, and every other name is
primitive or that of a definition which has begun. -/
theorem avroSchema_wellFormed {s : Schema} {settings : AvroSettings} {a : AvroSchema}
    (h : s.avroSchema settings = .ok a) :
    ∃ events, WritesSchema a.toJson events ∧ (definitions events).Nodup ∧
      (∀ before name after, events = before ++ .mention name :: after →
        (∃ type : Primitive, name = type.avroName) ∨ name ∈ definitions before) ∧
      ∃ root shape progress, s.rootObject = .ok (root, shape) ∧
        (emit s settings.defaultName s.maxEmissionDepth root none).run {} =
          .ok (some a.type, progress) ∧ progress.issued.reverse = definitions events := by
  obtain ⟨name, doc, fields, root, shape, progress, htype, hroot, hrun⟩ := avroSchema_run h
  obtain ⟨hissues, hflat⟩ := (emits_all s settings.defaultName s.maxEmissionDepth).1 hrun
  have hstart : ({} : Progress).Sound := by simp [Progress.Sound]
  obtain ⟨-, hgrounded⟩ := hissues hstart
  replace hgrounded : Grounded [] a.type.events progress.issued := hgrounded
  refine ⟨a.type.events, ?_, hgrounded.definitions_nodup.1, ?_, root, shape, progress, hroot, hrun,
    ?_⟩
  · have hrecord := hflat a.type rfl
    rw [htype] at hrecord
    rw [AvroSchema.toJson, htype, AvroType.events]
    cases hrecord with
    | record hfields => exact .record (AvroType.writesFields hfields)
  · intro before mentioned after heq
    rw [heq] at hgrounded
    simpa using hgrounded.mention_known
  · rw [hgrounded.known_eq, List.append_nil, List.reverse_reverse]

/-- A tree with a level at each node: the level is defined once, and the tree refers to itself. -/
def treeSchema : Schema where
  nodes := #[{ title := some "Level", kind := .enumeration [.string "low", .string "high"] },
    { kind := .reference "#/properties/level" (some 0) }, { kind := .tuple [0, 1] },
    { kind := .reference "#" (some 5) }, { kind := .array 3 },
    { title := some "Tree", kind := .object {
      properties := [("level", 0), ("range", 2), ("children", 4)] } }]
  root := 5

def treeAvroSchema : AvroSchema where
  type := .record "Tree" none [⟨"level", .enumeration "Level" ["low", "high"], none⟩,
    ⟨"range", .array (.named "Level"), none⟩, ⟨"children", .array (.named "Tree"), none⟩]
  nameSpace := none
  warnings := []

theorem rootObject_tree : treeSchema.rootObject =
    .ok (5, { properties := [("level", 0), ("range", 2), ("children", 4)] }) := by
  cbv

theorem avroSchema_tree : treeSchema.avroSchema {} = .ok treeAvroSchema := by
  rw [avroSchema, rootObject_tree]
  rfl

theorem avroSchema_wellFormed_tree :
    treeSchema.avroSchema {} = .ok treeAvroSchema ∧
      ∃ events, WritesSchema treeAvroSchema.toJson events ∧ (definitions events).Nodup ∧
        (∀ before name after, events = before ++ .mention name :: after →
          (∃ type : Primitive, name = type.avroName) ∨ name ∈ definitions before) ∧
        ∃ root shape progress, treeSchema.rootObject = .ok (root, shape) ∧
          (emit treeSchema ({} : AvroSettings).defaultName
            treeSchema.maxEmissionDepth root none).run {} =
              .ok (some treeAvroSchema.type, progress) ∧
          progress.issued.reverse = definitions events :=
  ⟨avroSchema_tree, avroSchema_wellFormed avroSchema_tree⟩

end Schema

end SchemaBridge
