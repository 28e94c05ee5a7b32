import SchemaBridge.Proofs.AvroBranches
import SchemaBridge.Proofs.NodePayloads

/-!
The unions of an Avro schema. Branches that are written alike are merged, so no branch is written
twice; but a definition and a mention of it are not written alike, and neither are two arrays of
different items. Main statement: the branches of every union are distinct as they are written, and
distinct as branches if the elements of tuples are apart: no two of them lead to one definition, and
no two to arrays, unless both are written alike wherever they occur.
-/

namespace SchemaBridge

namespace AvroEmission

open Steps

variable {s : Schema}

/-! ### The elements of a tuple -/

/-- What an emitter returns for a node: its unions are as they should be, it is written in one of
the ways of the node that it leads to, and as it has to be if that is settled. -/
structure Written (s : Schema) (p p' : Progress) (id : NodeId) (type : AvroType) : Prop where
  unions : ∀ members ∈ type.unions, s.Distinguishes members
  origin : ∃ target, s.dereference id = .ok target ∧ Origin s p' target type
  settled : ∀ type', Settled s p.named id type' → type = type'

theorem Written.mono {p p₁ p₂ p' : Progress} {id : NodeId} {type : AvroType}
    (h : Written s p₁ p₂ id type) (hbefore : p.named ⊆ p₁.named) (hafter : p₂.named ⊆ p'.named) :
    Written s p p' id type := by
  obtain ⟨target, htarget, horigin⟩ := h.origin
  exact ⟨h.unions, ⟨target, htarget, horigin.mono hafter⟩,
    fun type' hsettled => h.settled type' (hsettled.mono hbefore)⟩

/-- An emitter writes the types of nodes and keeps the table of names. -/
structure Writes (s : Schema) (emit : TypeEmitter) : Prop where
  extend : ∀ {id hint p p' result}, (emit id hint).run p = .ok (result, p') → p.Extends s p'
  written : ∀ {id hint p p' type}, (emit id hint).run p = .ok (some type, p') → p.Tidy s →
    Written s p p' id type

theorem emitElements_written {emit : TypeEmitter} (hemit : Writes s emit) {hint : Option String}
    {index : Nat} {ids : List NodeId} {types found : List AvroType} {p p' : Progress}
    (h : (emitElements emit hint index ids types).run p = .ok (found, p')) (hp : p.Tidy s) :
    ∃ each, List.Forall₂ (Written s p p') ids each ∧ found = mergeTypes types each := by
  obtain ⟨each, heach, rfl⟩ := emitElements_merges hemit.extend h hp
  refine ⟨each, heach.imp ?_, rfl⟩
  rintro id type ⟨hint, p₁, p₂, hrun, hp₁, hbefore, hafter⟩
  exact (hemit.written hrun hp₁).mono hbefore hafter

/-- Branches of the same key are the same branch, if the elements of the tuple are apart. -/
theorem eq_of_branchKey_eq {p p' : Progress} {ids : List NodeId} {each : List AvroType}
    (hp' : p'.Tidy s) (heach : List.Forall₂ (Written s p p') ids each)
    (hapart : ids.Pairwise s.Apart) {m m' : AvroType} (hm : m ∈ mergeTypes [] each)
    (hm' : m' ∈ mergeTypes [] each) (hkey : m.branchKey = m'.branchKey) : m = m' := by
  obtain ⟨i, type, hi, hm⟩ := (mem_mergeTypes hm).resolve_left (by simp)
  obtain ⟨j, type', hj, hm'⟩ := (mem_mergeTypes hm').resolve_left (by simp)
  obtain ⟨id, hid, hwritten⟩ := exists_of_forall₂ heach hi
  obtain ⟨id', hid', hwritten'⟩ := exists_of_forall₂ heach hj
  obtain ⟨target, htarget, horigin⟩ := hwritten.origin
  obtain ⟨target', htarget', horigin'⟩ := hwritten'.origin
  have hm := horigin.of_branchKey hm
  have hm' := horigin'.of_branchKey hm'
  rw [← hkey] at hm'
  -- Two elements that are written differently differ in where they lead to.
  have hdiffer : type ≠ type' →
      (target = target' → isDefinition (s.node target).kind = false) ∧
        ((s.node target).kind.isList = true → (s.node target').kind.isList = false) := by
    intro hne
    have hindex : i ≠ j := by
      rintro rfl
      exact hne (Option.some.inj (hi.symm.trans hj))
    rcases Schema.apart_of_ne hapart hid hid' hindex with ⟨fixed, hfixed, hfixed'⟩ | hapart
    · have heq := hwritten.settled fixed (hfixed.mono (List.nil_subset _))
      have heq' := hwritten'.settled fixed (hfixed'.mono (List.nil_subset _))
      exact absurd (heq.trans heq'.symm) hne
    · exact hapart target target' htarget htarget'
  cases hbranch : m.branchKey with
  | token name =>
      rw [hbranch] at hm hm'
      exact hm.trans hm'.symm
  | definition name =>
      rw [hbranch] at hm hm'
      obtain ⟨rfl, hname⟩ := hm
      obtain ⟨rfl, hname'⟩ := hm'
      obtain rfl := hp'.id_unique hname hname'
      by_contra hne
      have hfalse := (hdiffer hne).1 rfl
      rw [hp'.definition _ hname] at hfalse
      cases hfalse
  | array =>
      rw [hbranch] at hm hm'
      obtain ⟨rfl, hlist⟩ := hm
      obtain ⟨rfl, hlist'⟩ := hm'
      by_contra hne
      have hfalse := (hdiffer hne).2 hlist
      rw [hlist'] at hfalse
      cases hfalse
  | union =>
      rw [hbranch] at hm
      exact hm.elim

/-- The types of the elements of a tuple are distinct branches. -/
theorem distinguishes_mergeTypes {p p' : Progress} {id : NodeId} {ids : List NodeId}
    {each : List AvroType} (hkind : (s.node id).kind = .tuple ids) (hp' : p'.Tidy s)
    (heach : List.Forall₂ (Written s p p') ids each) : s.Distinguishes (mergeTypes [] each) := by
  have hnodup := nodup_mergeTypes each List.nodup_nil
  refine ⟨hnodup, fun hapart => ?_⟩
  apply List.Nodup.map_on _ hnodup
  intro m hm m' hm' hkey
  exact eq_of_branchKey_eq hp' heach (hapart id ids hkind) hm hm' hkey

/-! ### Nodes -/

theorem unionMembers_eq {types : List JsonType} {p p' : Progress} {members : List AvroType}
    (h : (unionMembers types).run p = .ok (members, p')) : members = memberNames types := by
  induction types generalizing members with
  | nil =>
      obtain ⟨rfl, rfl⟩ := pure_ok h
      rfl
  | cons type rest ih =>
      cases type with
      | primitive type =>
          rw [unionMembers] at h
          simp only [JsonType.avroName?] at h
          obtain ⟨tail, p₁, htail, h⟩ := bind_ok h
          obtain ⟨rfl, rfl⟩ := pure_ok h
          rw [ih htail]
          rfl
      | _ => exact (throw_ok h).elim

/-- The fields that an emitter of fields returns have the unions that they should. -/
structure WritesFields (s : Schema) (emit : NodeId → Emitter (List (AvroField AvroType))) :
    Prop where
  extend : ∀ {id p p' fields}, (emit id).run p = .ok (fields, p') → p.Extends s p'
  unions : ∀ {id p p' fields}, (emit id).run p = .ok (fields, p') → p.Tidy s →
    ∀ members ∈ AvroType.unionsOfFields fields, s.Distinguishes members

theorem emitProperties_unions {emit : TypeEmitter} (hemit : Writes s emit) {record : String}
    {properties : List (String × NodeId)} {fields : List (AvroField AvroType)} {p p' : Progress}
    (h : (emitProperties emit s record properties).run p = .ok (fields, p')) (hp : p.Tidy s) :
    ∀ members ∈ AvroType.unionsOfFields fields, s.Distinguishes members := by
  induction properties generalizing fields p with
  | nil =>
      obtain ⟨rfl, rfl⟩ := pure_ok h
      simp [AvroType.unionsOfFields]
  | cons property rest ih =>
      obtain ⟨name, id⟩ := property
      rw [emitProperties] at h
      obtain ⟨result, p₁, hresult, h⟩ := bind_ok h
      have hp₁ := (hemit.extend hresult hp).1
      cases result with
      | none =>
          obtain ⟨u, p₂, hwarn, h⟩ := bind_ok h
          cases modifyGet_ok hwarn
          exact ih h ((kept_extends s).warnDropped p₁ name record hp₁).1
      | some type =>
          obtain ⟨tail, p₂, htail, h⟩ := bind_ok h
          obtain ⟨rfl, rfl⟩ := pure_ok h
          rw [AvroType.unionsOfFields]
          exact List.forall_mem_append.mpr ⟨(hemit.written hresult hp).unions, ih htail hp₁⟩

theorem emitBranches_unions {emit : NodeId → Emitter (List (AvroField AvroType))}
    (hemit : WritesFields s emit) {ids : List NodeId} {fields : List (AvroField AvroType)}
    {p p' : Progress} (h : (emitBranches emit ids).run p = .ok (fields, p')) (hp : p.Tidy s) :
    ∀ members ∈ AvroType.unionsOfFields fields, s.Distinguishes members := by
  induction ids generalizing fields p with
  | nil =>
      obtain ⟨rfl, rfl⟩ := pure_ok h
      simp [AvroType.unionsOfFields]
  | cons id rest ih =>
      rw [emitBranches] at h
      obtain ⟨first, p₁, hfirst, h⟩ := bind_ok h
      obtain ⟨later, p₂, hlater, h⟩ := bind_ok h
      obtain ⟨rfl, rfl⟩ := pure_ok h
      have hp₁ := (hemit.extend hfirst hp).1
      rw [AvroType.unionsOfFields_append]
      exact List.forall_mem_append.mpr ⟨hemit.unions hfirst hp, ih hlater hp₁⟩

/-- What a visit returns: the definition of the node under the name it is given, or a type that is
written in one of the ways of the node. -/
structure VisitWritten (s : Schema) (p p' : Progress) (id : NodeId) (name : String)
    (type : AvroType) : Prop where
  unions : ∀ members ∈ type.unions, s.Distinguishes members
  definition : isDefinition (s.node id).kind = true →
    (∃ symbols, type = .enumeration name symbols) ∨ ∃ doc fields, type = .record name doc fields
  written : isDefinition (s.node id).kind = false → Written s p p' id type

theorem VisitWritten.of_written {p p' : Progress} {id : NodeId} {name : String} {type : AvroType}
    (hdefinition : isDefinition (s.node id).kind = false) (h : Written s p p' id type) :
    VisitWritten s p p' id name type := by
  refine ⟨h.unions, fun htrue => ?_, fun _ => h⟩
  rw [hdefinition] at htrue
  cases htrue

section

variable {defaultName : String} {budget : Nat} {p p' : Progress} {id : NodeId}
  {hint : Option String}

/-- The items of a tuple are the merged types of its elements, or the only one of them. -/
theorem tuple_written {emit : TypeEmitter} (hemit : Writes s emit) {ids : List NodeId}
    {types : List AvroType} {items : AvroType} (hkind : (s.node id).kind = .tuple ids)
    (htypes : (emitElements emit hint 0 ids []).run p = .ok (types, p'))
    (hitems : types = [items] ∨ 2 ≤ types.length ∧ items = .union types) (hp : p.Tidy s) :
    Written s p p' id (.array items) := by
  obtain ⟨each, heach, rfl⟩ := emitElements_written hemit htypes hp
  have hp' := (emitElements_kept (kept_extends s).toChained hemit.extend htypes hp).1
  have hinner : ∀ members ∈ AvroType.unionsOfAll (mergeTypes [] each),
      s.Distinguishes members := by
    intro members hmembers
    obtain ⟨m, hm, hin⟩ := AvroType.mem_unionsOfAll.mp hmembers
    obtain ⟨i, type, htype, hm⟩ := (mem_mergeTypes hm).resolve_left (by simp)
    obtain ⟨element, -, hwritten⟩ := exists_of_forall₂ heach htype
    exact hwritten.unions members (unions_alternatives hm hin)
  refine ⟨?_, ⟨id, Schema.dereference_self (by rw [hkind]; rfl), .array (by rw [hkind]; rfl)⟩, ?_⟩
  · rw [AvroType.unions]
    rcases hitems with hone | ⟨-, rfl⟩
    · rw [hone] at hinner
      simpa [AvroType.unionsOfAll] using hinner
    · rw [AvroType.unions]
      exact List.forall_mem_cons.mpr ⟨distinguishes_mergeTypes hkind hp' heach, hinner⟩
  · intro type' hsettled
    have hsettle := hsettled.of_unnamed fun name => hp.not_mention (by rw [hkind]; rfl)
    rw [hkind] at hsettle
    obtain ⟨fixed, hsingle, hfixed, rfl⟩ := hsettle
    have hall : ∀ type ∈ each, type = fixed := by
      intro type htype
      obtain ⟨i, hi⟩ := List.mem_iff_getElem?.mp htype
      obtain ⟨element, helement, hwritten⟩ := exists_of_forall₂ heach hi
      exact hwritten.settled fixed (hfixed element (List.mem_of_getElem? helement))
    have hne : each ≠ [] := by
      rintro rfl
      rcases hitems with hone | ⟨htwo, -⟩
      · cases hone
      · cases htwo
    rw [mergeTypes_replicate hsingle hall hne] at hitems
    rcases hitems with hone | ⟨htwo, -⟩
    · cases hone
      rfl
    · simp at htwo

theorem visit_written (hemit : Writes s (emit s defaultName budget))
    (hbranch : WritesFields s (branchFields s defaultName budget))
    (hunion : ∀ id types, (s.node id).kind = .union types → types.Nodup) {name : String}
    {type : AvroType}
    (h : (visit s defaultName (budget + 1) id hint name).run p = .ok (some type, p'))
    (hp : p.Tidy s) : VisitWritten s p p' id name type := by
  have hstep := visit_step h
  -- What settles a node that is no definition is its kind.
  have hsettle {type' : AvroType} (hdefinition : isDefinition (s.node id).kind = false)
      (hsettled : Settled s p.named id type') :=
    hsettled.of_unnamed fun name => hp.not_mention hdefinition
  generalize hkind : (s.node id).kind = kind at hstep hsettle
  have hself (hreference : kind.isReference = false) : s.dereference id = .ok id :=
    Schema.dereference_self (hkind ▸ hreference)
  have hplain (hdefinition : isDefinition kind = false)
      (hwritten : Written s p p' id type) : VisitWritten s p p' id name type :=
    .of_written (hkind ▸ hdefinition) hwritten
  cases hstep with
  | primitive type =>
      refine hplain rfl ⟨by simp [AvroType.unions], ⟨id, hself rfl, .primitive hkind⟩, ?_⟩
      exact fun type' hsettled => (hsettle rfl hsettled).symm
  | enumeration hfound =>
      refine ⟨by simp [AvroType.unions], fun _ => .inl ⟨_, rfl⟩, fun hfalse => ?_⟩
      rw [hkind] at hfalse
      cases hfalse
  | array hitems =>
      have hwritten := hemit.written hitems hp
      refine hplain rfl ⟨hwritten.unions, ⟨id, hself rfl, .array (by rw [hkind]; rfl)⟩, ?_⟩
      intro type' hsettled
      obtain ⟨fixed, hfixed, rfl⟩ := hsettle rfl hsettled
      rw [hwritten.settled fixed hfixed]
  | tuple htypes hitems => exact hplain rfl (tuple_written hemit hkind htypes hitems hp)
  | @object shape own inherited p₁ _ hown hinherited hnames =>
      have hp₁ := (emitProperties_kept (kept_extends s).toChained hemit.extend hown hp).1
      refine ⟨?_, fun _ => .inr ⟨_, _, rfl⟩, fun hfalse => ?_⟩
      · rw [AvroType.unions, AvroType.unionsOfFields_append]
        exact List.forall_mem_append.mpr
          ⟨emitProperties_unions hemit hown hp, emitBranches_unions hbranch hinherited hp₁⟩
      · rw [hkind] at hfalse
        cases hfalse
  | reference _ hnext =>
      have hwritten := hemit.written hnext hp
      obtain ⟨target, htarget, horigin⟩ := hwritten.origin
      refine hplain rfl ⟨hwritten.unions, ⟨target, ?_, horigin⟩, ?_⟩
      · exact Schema.dereference_reference hkind htarget
      · exact fun type' hsettled => hwritten.settled type' (hsettle rfl hsettled)
  | union hmembers =>
      cases unionMembers_eq hmembers
      refine hplain rfl ⟨?_, ⟨id, hself rfl, .union hkind⟩, ?_⟩
      · rw [AvroType.unions, unions_memberNames]
        exact List.forall_mem_singleton.mpr (distinguishes_memberNames (hunion id _ hkind))
      · exact fun type' hsettled => (hsettle rfl hsettled).symm

theorem emit_written (hvisit : ∀ {id hint name p p' type},
      (visit s defaultName budget id hint name).run p = .ok (some type, p') → p.Tidy s →
        VisitWritten s p p' id name type)
    {type : AvroType} (h : (emit s defaultName (budget + 1) id hint).run p = .ok (some type, p'))
    (hp : p.Tidy s) : Written s p p' id type := by
  cases emit_step h with
  | @mention name hname =>
      have hmem := mem_of_lookup hname
      have hdefinition := hp.definition _ hmem
      refine ⟨by simp [AvroType.unions], ⟨id, dereference_definition hdefinition, .mention hmem⟩,
        fun type' hsettled => ?_⟩
      obtain ⟨name', hname', rfl⟩ := hsettled.of_definition hdefinition
      rw [hp.name_unique hmem hname']
  | @define _ name p₁ p₂ hnew hkind hdefine hrun =>
      have hp₁ := hp.define (baseName defaultName (s.node id) hint) hnew hkind
      have hname : (id, name) ∈ p₁.named := by
        cases hdefine
        exact List.mem_cons_self
      rw [hdefine] at hp₁
      have hp₁ := ((kept_extends s).enter p₁ id hp₁).1
      have hwritten := hvisit hrun hp₁
      have hlater := (((kept_extends s).runs defaultName budget).2.1 hrun hp₁).2 hname
      refine ⟨hwritten.unions, ⟨id, dereference_definition hkind, ?_⟩, fun type' hsettled => ?_⟩
      · rcases hwritten.definition hkind with ⟨symbols, rfl⟩ | ⟨doc, fields, rfl⟩
        · exact .enumeration hlater
        · exact .record hlater
      · obtain ⟨name', hname', -⟩ := hsettled.of_definition hkind
        exact absurd (List.mem_map_of_mem hname') (not_mem_keys_of_lookup hnew)
  | @inline _ p₂ hnew hkind hrun =>
      have hwritten := (hvisit hrun ((kept_extends s).enter p id hp).1).written hkind
      exact hwritten.mono (List.Subset.refl _) (List.Subset.refl _)

theorem branchFields_unions (hvisit : ∀ {id hint name p p' type},
      (visit s defaultName budget id hint name).run p = .ok (some type, p') → p.Tidy s →
        VisitWritten s p p' id name type)
    {fields : List (AvroField AvroType)}
    (h : (branchFields s defaultName (budget + 1) id).run p = .ok (fields, p')) (hp : p.Tidy s) :
    ∀ members ∈ AvroType.unionsOfFields fields, s.Distinguishes members := by
  cases branch_step h with
  | record htarget hfresh hrun =>
      have hunions := (hvisit hrun ((kept_extends s).enter p _ hp).1).unions
      rwa [AvroType.unions] at hunions
  | untyped => simp [AvroType.unionsOfFields]

/-- Every emitter writes types as it should, whatever its budget. -/
theorem writes (hunion : ∀ id types, (s.node id).kind = .union types → types.Nodup)
    (defaultName : String) (budget : Nat) :
    Writes s (emit s defaultName budget) ∧
    (∀ {id hint name p p' type},
      (visit s defaultName budget id hint name).run p = .ok (some type, p') → p.Tidy s →
        VisitWritten s p p' id name type) ∧
    WritesFields s (branchFields s defaultName budget) := by
  induction budget with
  | zero =>
      exact ⟨⟨fun h => (throw_ok h).elim, fun h => (throw_ok h).elim⟩,
        fun h => (throw_ok h).elim, ⟨fun h => (throw_ok h).elim, fun h => (throw_ok h).elim⟩⟩
  | succ budget ih =>
      obtain ⟨hemit, hvisit, hbranch⟩ := ih
      have hkept := (kept_extends s).runs defaultName (budget + 1)
      exact ⟨⟨hkept.1, emit_written hvisit⟩, visit_written hemit hbranch hunion,
        ⟨hkept.2.2, branchFields_unions hvisit⟩⟩

/-- A tuple becomes an array, unless the conversion fails. -/
theorem emit_tuple {ids : List NodeId} {result : Option AvroType} (hp : p.Tidy s)
    (hkind : (s.node id).kind = .tuple ids)
    (h : (emit s defaultName budget id hint).run p = .ok (result, p')) :
    ∃ items, result = some (.array items) := by
  cases budget with
  | zero => exact (throw_ok h).elim
  | succ budget =>
      cases emit_step h with
      | mention hname => exact absurd (mem_of_lookup hname) (hp.not_mention (by rw [hkind]; rfl))
      | define _ hdefinition => rw [hkind] at hdefinition; cases hdefinition
      | inline _ _ hvisit =>
          cases budget with
          | zero => exact (throw_ok hvisit).elim
          | succ budget =>
              have hstep := visit_step hvisit
              rw [hkind] at hstep
              cases hstep
              exact ⟨_, rfl⟩

end

end AvroEmission

/-! ### Schemas that were read -/

namespace Schema

open AvroEmission

/-- The branches of Avro unions are distinct. No branch of a union is written twice; if the elements
of tuples are apart, then no two branches of a union are the same primitive type, the same
definition or both arrays; and a tuple whose elements are all settled to one type becomes an array
of that type. -/
theorem avroSchema_unions {document : Json} {s : Schema} {settings : AvroSettings} {a : AvroSchema}
    (hdistinct : document.DistinctKeys) (hread : Schema.read document = .ok s)
    (h : s.avroSchema settings = .ok a) :
    (∀ members ∈ a.type.unions, members.Nodup) ∧
    (s.TuplesApart → ∀ members ∈ a.type.unions, (members.map AvroType.branchKey).Nodup) ∧
    ∀ {id ids type budget hint p p' result}, (s.node id).kind = .tuple ids →
      alternatives type = [type] → p.Tidy s →
      (∀ element ∈ ids, Settled s p.named element type) →
      (emit s settings.defaultName budget id hint).run p = .ok (result, p') →
      result = some (.array type) := by
  obtain ⟨demands, d, hsteps⟩ := Schema.read_steps hread
  have hunion : ∀ id types, (s.node id).kind = .union types → types.Nodup :=
    fun _ _ => (hsteps.faithful hdistinct).nodup_types
  have hwrites := fun budget => (writes hunion settings.defaultName budget).1
  obtain ⟨name, doc, fields, root, shape, progress, -, -, hrun⟩ := avroSchema_run h
  have hstart : ({} : Progress).Tidy s :=
    ⟨by simp [Progress.Sound], by simp, List.nodup_nil, List.nodup_nil⟩
  have hunions := ((hwrites _).written hrun hstart).unions
  refine ⟨fun members hmembers => (hunions members hmembers).1,
    fun hapart members hmembers => (hunions members hmembers).2 hapart, ?_⟩
  intro id ids type budget hint p p' result hkind hsingle hp helements hemit
  obtain ⟨items, rfl⟩ := emit_tuple hp hkind hemit
  rw [((hwrites budget).written hemit hp).settled _ (.tuple hkind hsingle helements)]

/-- A tuple of a number and the schema itself, and a tuple of two numbers. -/
def nestDocument : Json :=
  .object [("title", .string "Nest"), ("properties", .object [
    ("entry", .object [("type", .string "array"), ("items", .array
      [.object [("type", .string "integer")], .object [("$ref", .string "#")]])]),
    ("bounds", .object [("type", .string "array"), ("items", .array
      [.object [("type", .string "integer")], .object [("type", .string "integer")]])])])]

def nestSchema : Schema where
  nodes := #[{ kind := .primitive .integer }, { kind := .reference "#" (some 6) },
    { kind := .tuple [0, 1] }, { kind := .primitive .integer }, { kind := .primitive .integer },
    { kind := .tuple [3, 4] },
    { title := some "Nest", kind := .object { properties := [("entry", 2), ("bounds", 5)] } }]
  root := 6

def nestAvroSchema : AvroSchema where
  type := .record "Nest" none [
    ⟨"entry", .array (.union [.named "long", .named "Nest"]), none⟩,
    ⟨"bounds", .array (.named "long"), none⟩]
  nameSpace := none
  warnings := []

theorem read_nest : Schema.read nestDocument = .ok nestSchema := by
  cbv

theorem rootObject_nest : nestSchema.rootObject =
    .ok (6, { properties := [("entry", 2), ("bounds", 5)] }) := by
  cbv

theorem avroSchema_nest : nestSchema.avroSchema {} = .ok nestAvroSchema := by
  rw [avroSchema, rootObject_nest]
  rfl

theorem tuplesApart_nest : nestSchema.TuplesApart := by
  have hnumber : nestSchema.dereference 0 = .ok 0 := by cbv
  have hself : nestSchema.dereference 1 = .ok 6 := by cbv
  intro id ids hkind
  have hid : id < 7 := by
    by_contra hout
    rw [node, Arena.node_of_size_le (Nat.le_of_not_lt hout)] at hkind
    cases hkind
  interval_cases id <;> cases hkind
  · refine List.pairwise_pair.mpr (.inr fun target target' htarget htarget' => ?_)
    rw [hnumber] at htarget
    rw [hself] at htarget'
    cases htarget
    cases htarget'
    exact ⟨fun _ => rfl, fun _ => rfl⟩
  · exact List.pairwise_pair.mpr (.inl ⟨_, .primitive rfl, .primitive rfl⟩)

theorem avroSchema_unions_nest :
    nestDocument.DistinctKeys ∧ Schema.read nestDocument = .ok nestSchema ∧
      nestSchema.avroSchema {} = .ok nestAvroSchema ∧
      (∀ members ∈ nestAvroSchema.type.unions, members.Nodup) ∧
      (∀ members ∈ nestAvroSchema.type.unions, (members.map AvroType.branchKey).Nodup) ∧
      ∀ {budget hint p p' result}, p.Tidy nestSchema →
        (emit nestSchema ({} : AvroSettings).defaultName budget 5 hint).run p =
          .ok (result, p') → result = some (.array (.named "long")) := by
  have hdistinct : nestDocument.DistinctKeys := by decide
  obtain ⟨hmembers, hkeys, htuple⟩ := avroSchema_unions hdistinct read_nest avroSchema_nest
  refine ⟨hdistinct, read_nest, avroSchema_nest, hmembers, hkeys tuplesApart_nest, ?_⟩
  intro budget hint p p' result hp hemit
  have helements : ∀ element ∈ [3, 4],
      Settled nestSchema p.named element (.named Primitive.integer.avroName) := by
    intro element helement
    rcases List.mem_pair.mp helement with rfl | rfl
    · exact .primitive rfl
    · exact .primitive rfl
  exact htuple rfl rfl hp helements hemit

/-- The two ends of a segment are the same definition. -/
def segmentDocument : Json :=
  .object [("title", .string "Segment"), ("properties", .object [
    ("ends", .object [("type", .string "array"), ("items", .array
      [.object [("$ref", .string "#/definitions/point")],
        .object [("$ref", .string "#/definitions/point")]])])]),
    ("definitions", .object [("point", .object [("title", .string "Point"),
      ("properties", .object [("x", .object [("type", .string "number")])])])])]

def segmentSchema : Schema where
  nodes := #[{ kind := .reference "#/definitions/point" (some 5) },
    { kind := .reference "#/definitions/point" (some 5) }, { kind := .tuple [0, 1] },
    { title := some "Segment", kind := .object { properties := [("ends", 2)] } },
    { kind := .primitive .number },
    { title := some "Point", kind := .object { properties := [("x", 4)] } }]
  root := 3

def pointBranches : List AvroType :=
  [.record "Point" none [⟨"x", .named "double", none⟩], .named "Point"]

def segmentAvroSchema : AvroSchema where
  type := .record "Segment" none [⟨"ends", .array (.union pointBranches), none⟩]
  nameSpace := none
  warnings := []

theorem read_segment : Schema.read segmentDocument = .ok segmentSchema := by
  cbv

theorem rootObject_segment :
    segmentSchema.rootObject = .ok (3, { properties := [("ends", 2)] }) := by
  cbv

theorem avroSchema_segment : segmentSchema.avroSchema {} = .ok segmentAvroSchema := by
  rw [avroSchema, rootObject_segment]
  rfl

/-- A tuple of two equal elements can become a union that has a definition and a mention of it. -/
theorem avroSchema_segment_repeats :
    segmentDocument.DistinctKeys ∧ Schema.read segmentDocument = .ok segmentSchema ∧
      segmentSchema.avroSchema {} = .ok segmentAvroSchema ∧
      (segmentSchema.node 2).kind = .tuple [0, 1] ∧
      segmentSchema.dereference 0 = segmentSchema.dereference 1 ∧
      ∃ members ∈ segmentAvroSchema.type.unions,
        ¬(members.map AvroType.branchKey).Nodup := by
  refine ⟨by decide, read_segment, avroSchema_segment, rfl, by cbv, pointBranches, ?_, by decide⟩
  exact List.mem_cons_self

end Schema

end SchemaBridge
