import SchemaBridge.Proofs.AvroDefinitions

/-!
The branches of Avro unions, and the nodes that they come from. A branch is told from another one by
the token of a primitive type, by the name of a record or an enumeration, or by being an array. The
table of names says which nodes have which names. Main statement: merging the types of elements
keeps each type once, and the elements that two different branches come from are different.
-/

namespace SchemaBridge

/-- What tells a branch of a union from another one. -/
inductive BranchKey where
  | token (name : String)
  | definition (name : String)
  | array
  | union
deriving DecidableEq

namespace AvroType

/-- The names of the primitive types. -/
def tokens : List String :=
  [Primitive.null, .boolean, .integer, .number, .string].map Primitive.avroName

/-- A definition and a mention of it are the same branch, and so are any two arrays. -/
def branchKey : AvroType → BranchKey
  | named name => if name ∈ tokens then .token name else .definition name
  | union _ => .union
  | array _ => .array
  | enumeration name _ => .definition name
  | record name _ _ => .definition name

mutual
/-- The union lists in a type. -/
def unions : AvroType → List (List AvroType)
  | named _ => []
  | union members => members :: unionsOfAll members
  | array items => items.unions
  | enumeration _ _ => []
  | record _ _ fields => unionsOfFields fields

def unionsOfAll : List AvroType → List (List AvroType)
  | [] => []
  | type :: rest => type.unions ++ unionsOfAll rest

def unionsOfFields : List (AvroField AvroType) → List (List AvroType)
  | [] => []
  | ⟨_, type, _⟩ :: rest => type.unions ++ unionsOfFields rest
end

theorem unionsOfFields_append (xs ys : List (AvroField AvroType)) :
    unionsOfFields (xs ++ ys) = unionsOfFields xs ++ unionsOfFields ys := by
  induction xs with
  | nil => rfl
  | cons x rest ih => rw [List.cons_append, unionsOfFields, unionsOfFields, ih, List.append_assoc]

theorem mem_unionsOfAll {types : List AvroType} {members : List AvroType} :
    members ∈ unionsOfAll types ↔ ∃ type ∈ types, members ∈ type.unions := by
  induction types with
  | nil => simp [unionsOfAll]
  | cons type rest ih => simp [unionsOfAll, ih]

theorem unionsOfAll_named (names : List String) : unionsOfAll (names.map .named) = [] := by
  induction names with
  | nil => rfl
  | cons name rest ih => simp [unionsOfAll, unions, ih]

end AvroType

/-- A node that an array stands for. -/
def Kind.isList : Kind → Bool
  | array _ | tuple _ => true
  | _ => false

namespace AvroEmission

/-! ### The table of names -/

/-- The table gives names to definitions only, to each one name, and no name twice. -/
structure Progress.Tidy (s : Schema) (p : Progress) : Prop where
  sound : p.Sound
  definition : ∀ e ∈ p.named, isDefinition (s.node e.1).kind = true
  ids : (p.named.map Prod.fst).Nodup
  names : (p.named.map Prod.snd).Nodup

/-- A later progress has the names of the earlier one. -/
def Progress.Extends (s : Schema) (p p' : Progress) : Prop :=
  p.Tidy s → p'.Tidy s ∧ p.named ⊆ p'.named

theorem not_mem_keys_of_lookup {entries : List (NodeId × String)} {id : NodeId}
    (h : entries.lookup id = none) : id ∉ entries.map Prod.fst := by
  intro hmem
  obtain ⟨e, he, rfl⟩ := List.mem_map.mp hmem
  exact absurd (List.lookup_eq_none_iff.mp h e he) (by simp)

variable {s : Schema}

theorem tidy_start : ({} : Progress).Tidy s :=
  ⟨by simp [Progress.Sound], by simp, List.nodup_nil, List.nodup_nil⟩

theorem Progress.Tidy.define {p : Progress} (hp : p.Tidy s) {id : NodeId} (base : String)
    (hnew : p.named.lookup id = none) (hkind : isDefinition (s.node id).kind = true) :
    (p.define id base).2.Tidy s where
  sound := by
    refine List.forall_mem_cons.mpr ⟨List.mem_cons_self, fun e he => ?_⟩
    exact List.mem_cons_of_mem _ (hp.sound e he)
  definition := List.forall_mem_cons.mpr ⟨hkind, hp.definition⟩
  ids := List.nodup_cons.mpr ⟨not_mem_keys_of_lookup hnew, hp.ids⟩
  names := by
    refine List.nodup_cons.mpr ⟨fun hmem => ?_, hp.names⟩
    obtain ⟨e, he, heq⟩ := List.mem_map.mp hmem
    have hissued := hp.sound e he
    rw [heq] at hissued
    exact freshName_not_mem p.issued base hissued

theorem kept_extends (s : Schema) : Kept s (Progress.Extends s) where
  refl _ hp := ⟨hp, List.Subset.refl _⟩
  trans p p₁ p' h h' := by
    intro hp
    obtain ⟨hp₁, hsubset⟩ := h hp
    obtain ⟨hp', hsubset'⟩ := h' hp₁
    exact ⟨hp', fun e he => hsubset' (hsubset he)⟩
  define p id base hnew hkind := by
    intro hp
    exact ⟨hp.define base hnew hkind, List.subset_cons_self _ _⟩
  enter _ _ hp := ⟨⟨hp.sound, hp.definition, hp.ids, hp.names⟩, List.Subset.refl _⟩
  leave _ _ hp := ⟨⟨hp.sound, hp.definition, hp.ids, hp.names⟩, List.Subset.refl _⟩
  warnDropped _ _ _ hp := ⟨⟨hp.sound, hp.definition, hp.ids, hp.names⟩, List.Subset.refl _⟩

theorem Progress.Tidy.name_unique {p : Progress} (hp : p.Tidy s) {id : NodeId} {name name' : String}
    (h : (id, name) ∈ p.named) (h' : (id, name') ∈ p.named) : name = name' := by
  have heq := List.inj_on_of_nodup_map hp.ids h h' rfl
  exact congrArg Prod.snd heq

theorem Progress.Tidy.id_unique {p : Progress} (hp : p.Tidy s) {id id' : NodeId} {name : String}
    (h : (id, name) ∈ p.named) (h' : (id', name) ∈ p.named) : id = id' := by
  have heq := List.inj_on_of_nodup_map hp.names h h' rfl
  exact congrArg Prod.fst heq

/-- A node that is no definition is only settled by its kind, and not by the table. -/
theorem Progress.Tidy.not_mention {p : Progress} (hp : p.Tidy s) {id : NodeId} {name : String}
    (hdefinition : isDefinition (s.node id).kind = false) : (id, name) ∉ p.named := by
  intro hname
  have htrue := hp.definition _ hname
  rw [hdefinition] at htrue
  cases htrue

/-! ### Where a type comes from -/

/-- The members that a union of types is written with. -/
def memberNames (types : List JsonType) : List AvroType :=
  (types.filterMap JsonType.avroName?).map .named

/-- How the type of a node that is no reference is written, given the table of names. -/
inductive Origin (s : Schema) (p : Progress) (target : NodeId) : AvroType → Prop
  | primitive {type : Primitive} (hkind : (s.node target).kind = .primitive type) :
      Origin s p target (.named type.avroName)
  | mention {name : String} (hname : (target, name) ∈ p.named) : Origin s p target (.named name)
  | enumeration {name : String} {symbols : List String} (hname : (target, name) ∈ p.named) :
      Origin s p target (.enumeration name symbols)
  | record {name : String} {doc : Option String} {fields : List (AvroField AvroType)}
      (hname : (target, name) ∈ p.named) : Origin s p target (.record name doc fields)
  | array {items : AvroType} (hkind : (s.node target).kind.isList = true) :
      Origin s p target (.array items)
  | union {types : List JsonType} (hkind : (s.node target).kind = .union types) :
      Origin s p target (.union (memberNames types))

theorem Origin.mono {p p' : Progress} {target : NodeId} {type : AvroType}
    (h : Origin s p target type) (hsubset : p.named ⊆ p'.named) : Origin s p' target type := by
  cases h with
  | primitive hkind => exact .primitive hkind
  | mention hname => exact .mention (hsubset hname)
  | enumeration hname => exact .enumeration (hsubset hname)
  | record hname => exact .record (hsubset hname)
  | array hkind => exact .array hkind
  | union hkind => exact .union hkind

theorem avroName_injective {type type' : Primitive} (h : type.avroName = type'.avroName) :
    type = type' := by
  revert h
  cases type <;> cases type' <;> decide

theorem mem_tokens {name : String} :
    name ∈ AvroType.tokens ↔ ∃ type : Primitive, name = type.avroName := by
  constructor
  · intro h
    obtain ⟨type, -, rfl⟩ := List.mem_map.mp h
    exact ⟨type, rfl⟩
  · rintro ⟨type, rfl⟩
    cases type <;> decide

theorem mem_memberNames {types : List JsonType} {m : AvroType} :
    m ∈ memberNames types ↔ ∃ type : Primitive, .primitive type ∈ types ∧
      m = .named type.avroName := by
  simp only [memberNames, List.mem_map, List.mem_filterMap]
  constructor
  · rintro ⟨name, ⟨type, htype, hname⟩, rfl⟩
    cases type with
    | primitive type =>
        cases hname
        exact ⟨type, htype, rfl⟩
    | _ => cases hname
  · rintro ⟨type, htype, rfl⟩
    exact ⟨type.avroName, ⟨.primitive type, htype, rfl⟩, rfl⟩

/-- What the key of a branch says about the element of a tuple that adds it. -/
theorem Origin.of_branchKey {p : Progress} {target : NodeId} {type m : AvroType}
    (h : Origin s p target type) (hm : m ∈ alternatives type) :
    match m.branchKey with
    | .token name => m = .named name
    | .definition name => type = m ∧ (target, name) ∈ p.named
    | .array => type = m ∧ (s.node target).kind.isList = true
    | .union => False := by
  cases h with
  | @primitive type hkind =>
      rw [List.mem_singleton.mp hm, AvroType.branchKey, if_pos (mem_tokens.mpr ⟨type, rfl⟩)]
  | mention hname =>
      rw [List.mem_singleton.mp hm, AvroType.branchKey]
      split
      · rename_i htoken
        split at htoken
        · cases htoken; rfl
        · cases htoken
      · rename_i hdefinition
        split at hdefinition
        · cases hdefinition
        · cases hdefinition
          exact ⟨rfl, hname⟩
      · rename_i hkey
        split at hkey <;> cases hkey
      · rename_i hkey
        split at hkey <;> cases hkey
  | enumeration hname =>
      rw [List.mem_singleton.mp hm]
      exact ⟨rfl, hname⟩
  | record hname =>
      rw [List.mem_singleton.mp hm]
      exact ⟨rfl, hname⟩
  | array hkind =>
      rw [List.mem_singleton.mp hm]
      exact ⟨rfl, hkind⟩
  | union hkind =>
      obtain ⟨type, -, rfl⟩ := mem_memberNames.mp hm
      rw [AvroType.branchKey, if_pos (mem_tokens.mpr ⟨type, rfl⟩)]

/-- The node is written as the type wherever the table gives these names: the type has no
definition in it. -/
inductive Settled (s : Schema) (named : List (NodeId × String)) : NodeId → AvroType → Prop
  | mention {id : NodeId} {name : String} (hname : (id, name) ∈ named) :
      Settled s named id (.named name)
  | primitive {id : NodeId} {type : Primitive} (hkind : (s.node id).kind = .primitive type) :
      Settled s named id (.named type.avroName)
  | union {id : NodeId} {types : List JsonType} (hkind : (s.node id).kind = .union types) :
      Settled s named id (.union (memberNames types))
  | array {id items : NodeId} {type : AvroType} (hkind : (s.node id).kind = .array items)
      (hitems : Settled s named items type) : Settled s named id (.array type)
  | tuple {id : NodeId} {ids : List NodeId} {type : AvroType}
      (hkind : (s.node id).kind = .tuple ids) (hsingle : alternatives type = [type])
      (helements : ∀ element ∈ ids, Settled s named element type) :
      Settled s named id (.array type)
  | reference {id next : NodeId} {text : String} {type : AvroType}
      (hkind : (s.node id).kind = .reference text (some next))
      (hnext : Settled s named next type) : Settled s named id type

theorem Settled.mono {named named' : List (NodeId × String)} {id : NodeId} {type : AvroType}
    (h : Settled s named id type) (hsubset : named ⊆ named') : Settled s named' id type := by
  induction h with
  | mention hname => exact .mention (hsubset hname)
  | primitive hkind => exact .primitive hkind
  | union hkind => exact .union hkind
  | array hkind _ ih => exact .array hkind ih
  | tuple hkind hsingle _ ih => exact .tuple hkind hsingle ih
  | reference hkind _ ih => exact .reference hkind ih

/-- A definition is settled once it has a name. -/
theorem Settled.of_definition {named : List (NodeId × String)} {id : NodeId} {type : AvroType}
    (h : Settled s named id type) (hdefinition : isDefinition (s.node id).kind = true) :
    ∃ name, (id, name) ∈ named ∧ type = .named name := by
  cases h with
  | mention hname => exact ⟨_, hname, rfl⟩
  | primitive hkind => rw [hkind] at hdefinition; cases hdefinition
  | union hkind => rw [hkind] at hdefinition; cases hdefinition
  | array hkind => rw [hkind] at hdefinition; cases hdefinition
  | tuple hkind => rw [hkind] at hdefinition; cases hdefinition
  | reference hkind => rw [hkind] at hdefinition; cases hdefinition

/-- A node without a name is settled by its kind. -/
theorem Settled.of_unnamed {named : List (NodeId × String)} {id : NodeId} {type : AvroType}
    (h : Settled s named id type) (hunnamed : ∀ name, (id, name) ∉ named) :
    match (s.node id).kind with
    | .primitive type' => type = .named type'.avroName
    | .union types => type = .union (memberNames types)
    | .array items => ∃ type', Settled s named items type' ∧ type = .array type'
    | .tuple ids => ∃ type', alternatives type' = [type'] ∧
        (∀ element ∈ ids, Settled s named element type') ∧ type = .array type'
    | .reference _ (some next) => Settled s named next type
    | _ => False := by
  cases h with
  | mention hname => exact (hunnamed _ hname).elim
  | primitive hkind => rw [hkind]
  | union hkind => rw [hkind]
  | array hkind hitems => rw [hkind]; exact ⟨_, hitems, rfl⟩
  | tuple hkind hsingle helements => rw [hkind]; exact ⟨_, hsingle, helements, rfl⟩
  | reference hkind hnext => rw [hkind]; exact hnext

end AvroEmission

open AvroEmission

namespace Schema

/-- Two elements of a tuple do not lead to one definition, and not both to arrays, unless they are
written alike wherever they occur. -/
def Apart (s : Schema) (id id' : NodeId) : Prop :=
  (∃ type, Settled s [] id type ∧ Settled s [] id' type) ∨
  ∀ target target', s.dereference id = .ok target → s.dereference id' = .ok target' →
    (target = target' → isDefinition (s.node target).kind = false) ∧
    ((s.node target).kind.isList = true → (s.node target').kind.isList = false)

def TuplesApart (s : Schema) : Prop :=
  ∀ id ids, (s.node id).kind = .tuple ids → ids.Pairwise s.Apart

theorem Apart.symm {s : Schema} {id id' : NodeId} (h : s.Apart id id') : s.Apart id' id := by
  rcases h with ⟨type, htype, htype'⟩ | h
  · exact .inl ⟨type, htype', htype⟩
  · refine .inr fun target' target htarget' htarget => ?_
    obtain ⟨hsame, hlist⟩ := h target target' htarget htarget'
    refine ⟨?_, fun htrue' => ?_⟩
    · rintro rfl
      exact hsame rfl
    · rw [← Bool.not_eq_true]
      intro htrue
      rw [hlist htrue] at htrue'
      cases htrue'

/-- Elements at different positions are apart, whichever comes first. -/
theorem apart_of_ne {s : Schema} {ids : List NodeId} (hapart : ids.Pairwise s.Apart) {i j : Nat}
    {id id' : NodeId} (hi : ids[i]? = some id) (hj : ids[j]? = some id') (hne : i ≠ j) :
    s.Apart id id' := by
  obtain ⟨hbound, rfl⟩ := List.getElem?_eq_some_iff.mp hi
  obtain ⟨hbound', rfl⟩ := List.getElem?_eq_some_iff.mp hj
  have hpairs := List.pairwise_iff_getElem.mp hapart
  rcases Nat.lt_or_gt_of_ne hne with hlt | hgt
  · exact hpairs i j hbound hbound' hlt
  · exact Apart.symm (hpairs j i hbound' hbound hgt)

/-- The branches of a union are not written alike, and they have different keys if the elements of
tuples are apart. -/
def Distinguishes (s : Schema) (members : List AvroType) : Prop :=
  members.Nodup ∧ (s.TuplesApart → (members.map AvroType.branchKey).Nodup)

end Schema

namespace AvroEmission

variable {s : Schema}

/-- The members of a union of types are distinct tokens. -/
theorem distinguishes_memberNames {types : List JsonType} (htypes : types.Nodup) :
    s.Distinguishes (memberNames types) := by
  have hnodup : (memberNames types).Nodup := by
    refine List.Nodup.map (fun name name' h => AvroType.named.inj h) ?_
    refine List.Nodup.filterMap (fun type type' name hname hname' => ?_) htypes
    cases type with
    | primitive type =>
        cases type' with
        | primitive type' =>
            have heq := (Option.some.inj hname).trans (Option.some.inj hname').symm
            rw [avroName_injective heq]
        | _ => cases hname'
    | _ => cases hname
  refine ⟨hnodup, fun _ => List.Nodup.map_on (fun m hm m' hm' hkey => ?_) hnodup⟩
  obtain ⟨type, -, rfl⟩ := mem_memberNames.mp hm
  obtain ⟨type', -, rfl⟩ := mem_memberNames.mp hm'
  simp only [AvroType.branchKey, if_pos (mem_tokens.mpr ⟨type, rfl⟩),
    if_pos (mem_tokens.mpr ⟨type', rfl⟩)] at hkey
  rw [BranchKey.token.inj hkey]

theorem unions_memberNames (types : List JsonType) :
    AvroType.unionsOfAll (memberNames types) = [] :=
  AvroType.unionsOfAll_named _

/-! ### The elements of a tuple -/

/-- Adding the types of elements one by one, each type once. -/
def mergeTypes (types each : List AvroType) : List AvroType :=
  each.foldl (fun types type => addNew types (alternatives type)) types

/-- A run of an emitter at a node, somewhere between two progresses. -/
def EmitsBetween (s : Schema) (emit : TypeEmitter) (p p' : Progress) (id : NodeId)
    (type : AvroType) : Prop :=
  ∃ hint p₁ p₂, (emit id hint).run p₁ = .ok (some type, p₂) ∧ p₁.Tidy s ∧ p.named ⊆ p₁.named ∧
    p₂.named ⊆ p'.named

/-- The types of the elements of a tuple are emitted one by one and merged. -/
theorem emitElements_merges {emit : TypeEmitter}
    (hextend : ∀ {id hint p p' result}, (emit id hint).run p = .ok (result, p') → p.Extends s p')
    {hint : Option String} {index : Nat} {ids : List NodeId} {types found : List AvroType}
    {p p' : Progress} (h : (emitElements emit hint index ids types).run p = .ok (found, p'))
    (hp : p.Tidy s) :
    ∃ each, List.Forall₂ (EmitsBetween s emit p p') ids each ∧ found = mergeTypes types each := by
  induction ids generalizing index types p with
  | nil =>
      obtain ⟨rfl, rfl⟩ := Steps.pure_ok h
      exact ⟨[], .nil, rfl⟩
  | cons id rest ih =>
      rw [emitElements] at h
      obtain ⟨result, p₁, hresult, h⟩ := Steps.bind_ok h
      cases result with
      | none => exact (Steps.throw_ok h).elim
      | some type =>
          obtain ⟨hp₁, hsubset⟩ := hextend hresult hp
          have hlater := (emitElements_kept (kept_extends s).toChained hextend h hp₁).2
          obtain ⟨each, heach, rfl⟩ := ih h hp₁
          refine ⟨type :: each, .cons ⟨hint, p, p₁, hresult, hp, List.Subset.refl _, hlater⟩ ?_, rfl⟩
          refine heach.imp ?_
          rintro id' type' ⟨hint', p₂, p₃, hrun, hp₂, hbefore, hafter⟩
          exact ⟨hint', p₂, p₃, hrun, hp₂, fun e he => hbefore (hsubset he), hafter⟩

theorem nodup_addNew {types new : List AvroType} (h : types.Nodup) : (addNew types new).Nodup := by
  induction new generalizing types with
  | nil => exact h
  | cons type rest ih =>
      rw [addNew]
      apply ih
      split
      · exact h
      · rename_i hnew
        refine List.nodup_append.mpr ⟨h, List.nodup_singleton type, fun m hm m' hm' heq => ?_⟩
        rw [List.mem_singleton.mp hm'] at heq
        exact hnew (heq ▸ hm)

theorem nodup_mergeTypes {types : List AvroType} (each : List AvroType) (h : types.Nodup) :
    (mergeTypes types each).Nodup := by
  induction each generalizing types with
  | nil => exact h
  | cons type rest ih => exact ih (nodup_addNew h)

theorem mem_mergeTypes {types each : List AvroType} {m : AvroType} (h : m ∈ mergeTypes types each) :
    m ∈ types ∨ ∃ (i : Nat) (type : AvroType), each[i]? = some type ∧ m ∈ alternatives type := by
  induction each generalizing types with
  | nil => exact .inl h
  | cons type rest ih =>
      rcases ih h with hmem | ⟨i, type', htype, hm⟩
      · exact (mem_addNew hmem).imp_right fun hm => ⟨0, type, rfl, hm⟩
      · exact .inr ⟨i + 1, type', htype, hm⟩

theorem mergeTypes_replicate {type : AvroType} (hsingle : alternatives type = [type])
    {each : List AvroType} (heach : ∀ type' ∈ each, type' = type) (hne : each ≠ []) :
    mergeTypes [] each = [type] := by
  have hmore : ∀ more : List AvroType, (∀ type' ∈ more, type' = type) →
      mergeTypes [type] more = [type] := by
    intro more hmore
    induction more with
    | nil => rfl
    | cons first rest ih =>
        obtain ⟨rfl, hrest⟩ := List.forall_mem_cons.mp hmore
        have hsame : addNew [first] (alternatives first) = [first] := by
          rw [hsingle, addNew, addNew, if_pos List.mem_cons_self]
        rw [mergeTypes, List.foldl_cons, hsame]
        exact ih hrest
  cases each with
  | nil => exact (hne rfl).elim
  | cons first rest =>
      obtain ⟨rfl, hrest⟩ := List.forall_mem_cons.mp heach
      have hfirst : addNew [] (alternatives first) = [first] := by
        rw [hsingle, addNew, addNew, if_neg (List.not_mem_nil)]
        rfl
      rw [mergeTypes, List.foldl_cons, hfirst]
      exact hmore rest hrest

theorem unions_alternatives {type m members} (hm : m ∈ alternatives type)
    (hmembers : members ∈ AvroType.unions m) : members ∈ AvroType.unions type := by
  cases type with
  | union ms =>
      rw [AvroType.unions]
      exact List.mem_cons_of_mem _ (AvroType.mem_unionsOfAll.mpr ⟨m, hm, hmembers⟩)
  | _ =>
      rw [List.mem_singleton.mp hm] at hmembers
      exact hmembers

theorem exists_of_forall₂ {α β : Type} {R : α → β → Prop} {xs : List α} {ys : List β}
    (h : List.Forall₂ R xs ys) {i : Nat} {y : β} (hy : ys[i]? = some y) :
    ∃ x, xs[i]? = some x ∧ R x y := by
  obtain ⟨hi, rfl⟩ := List.getElem?_eq_some_iff.mp hy
  obtain ⟨hlength, hall⟩ := List.forall₂_iff_get.mp h
  have hi' : i < xs.length := hlength ▸ hi
  exact ⟨xs[i], List.getElem?_eq_getElem hi', hall i hi' hi⟩

theorem dereference_definition {id : NodeId} (hkind : isDefinition (s.node id).kind = true) :
    s.dereference id = .ok id := by
  refine Schema.dereference_self ?_
  cases h : (s.node id).kind with
  | reference => rw [h] at hkind; cases hkind
  | _ => rfl

end AvroEmission

end SchemaBridge
