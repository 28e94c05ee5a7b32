import SchemaBridge.Proofs.FieldShapes

/-!
The shapes of Avro types. A node with a shape leads to itself neither through parts nor through
references, so a conversion meets no cycle at it and never mentions a definition in progress; and
any other mention stands for a definition of the shape of its node. Main statement: whatever a node
unfolds to, its conversion either gives a type of that shape, where mentions stand for the
definitions in the text, or it fails at an enumeration with a literal that is no text.
-/

namespace SchemaBridge

/-- The root leads to an enumeration with a literal that is no text. -/
def Schema.HasNonTextSymbol (s : Schema) : Prop :=
  ∃ id literals literal, s.Reached id ∧ (s.node id).kind = .enumeration literals ∧
    literal ∈ literals ∧ ∀ text, literal ≠ .string text

namespace AvroEmission

open AvroType (Denotes DenotesFields tableOfFields tokens)
open Steps

/-! ### What a conversion knows -/

/-- The definitions are in the table, and none has the name of a primitive type. -/
def Defines (defs entries : List (String × AvroType)) : Prop :=
  ∀ e ∈ entries, e.1 ∉ tokens ∧ defs.lookup e.1 = some e.2

/-- The name of every definition that is not in progress stands for the shape of its node. -/
def Known (s : Schema) (defs : List (String × AvroType)) (p : Progress) : Prop :=
  ∀ id name n shape, (id, name) ∈ p.named → id ∉ p.active →
    s.ShapedWithin n id (some shape) → Denotes defs (.named name) shape

/-- A conversion goes on from one progress to another with the same nodes in progress, to none of
which it gives a name. -/
structure Continues (s : Schema) (p p' : Progress) : Prop where
  tidy : p'.Tidy s
  named : p.named ⊆ p'.named
  active : p'.active = p.active
  unnamed : ∀ e ∈ p'.named, e.1 ∈ p.active → e ∈ p.named

theorem Continues.refl {s : Schema} {p : Progress} (h : p.Tidy s) : Continues s p p :=
  ⟨h, List.Subset.refl _, rfl, fun _ he _ => he⟩

theorem Continues.trans {s : Schema} {p p₁ p' : Progress} (h : Continues s p p₁)
    (h' : Continues s p₁ p') : Continues s p p' := by
  refine ⟨h'.tidy, fun _ he => h'.named (h.named he), h'.active.trans h.active,
    fun e he hactive => h.unnamed e (h'.unnamed e he ?_) hactive⟩
  rw [h.active]
  exact hactive

theorem Continues.warnDropped {s : Schema} {p p' : Progress} (h : Continues s p p')
    (field record : String) : Continues s p (p'.warnDropped field record) :=
  ⟨((kept_extends s).warnDropped p' field record h.tidy).1, h.named, h.active, h.unnamed⟩

/-- A type has the shape of a node in every table that has its definitions, and the names that it
defines stand for the shapes of their nodes. -/
inductive Represents (s : Schema) (p p' : Progress) :
    Option AvroType → Option FieldShape → Prop
  | untyped (hknown : ∀ defs, Known s defs p → Known s defs p') : Represents s p p' none none
  | typed {type : AvroType} {shape : FieldShape}
      (hdenotes : ∀ defs, Defines defs type.table → Known s defs p →
        Known s defs p' ∧ Denotes defs type shape) :
      Represents s p p' (some type) (some shape)

/-- The same for the fields of a record. -/
structure RepresentsFields (s : Schema) (p p' : Progress) (fields : List (AvroField AvroType))
    (shapes : List (String × FieldShape)) : Prop where
  names : fields.map AvroField.name = shapes.map Prod.fst
  denotes : ∀ defs, Defines defs (tableOfFields fields) → Known s defs p →
    Known s defs p' ∧ DenotesFields defs fields shapes

/-- What a visit returns: the definition of the node under the name it is given, which the table
need not have, or a type of the shape of the node. -/
inductive VisitRepresents (s : Schema) (p p' : Progress) (id : NodeId) (name : String) :
    Option AvroType → Option FieldShape → Prop
  | record {doc : Option String} {fields : List (AvroField AvroType)}
      {shapes : List (String × FieldShape)} (hdefinition : isDefinition (s.node id).kind = true)
      (hfields : RepresentsFields s p p' fields shapes) :
      VisitRepresents s p p' id name (some (.record name doc fields)) (some (.group shapes))
  | enumeration {symbols : List String} (hdefinition : isDefinition (s.node id).kind = true)
      (hknown : ∀ defs, Known s defs p → Known s defs p') :
      VisitRepresents s p p' id name (some (.enumeration name symbols))
        (some (.column .binary (some .enumeration)))
  | inline {result : Option AvroType} {shape : Option FieldShape}
      (hdefinition : isDefinition (s.node id).kind = false)
      (h : Represents s p p' result shape) : VisitRepresents s p p' id name result shape

/-- No node in progress has a shape within so many unfoldings. -/
def Above (s : Schema) (n : Nat) (active : List NodeId) : Prop :=
  ∀ id ∈ active, ∀ result, ¬s.ShapedWithin n id result

/-- The budget that visits of nodes which are not in progress need at most: two for each. -/
def demand (s : Schema) (active : List NodeId) : Nat :=
  2 * NodeId.unseen s.nodes.size active

variable {s : Schema}

theorem Defines.append {defs xs ys : List (String × AvroType)} (h : Defines defs (xs ++ ys)) :
    Defines defs xs ∧ Defines defs ys :=
  List.forall_mem_append.mp h

theorem Represents.trans_fields {p p₁ p' : Progress} {name : String} {type : AvroType}
    {doc : Option String} {shape : FieldShape} {rest : List (AvroField AvroType)}
    {shapes : List (String × FieldShape)} (h : Represents s p p₁ (some type) (some shape))
    (hrest : RepresentsFields s p₁ p' rest shapes) :
    RepresentsFields s p p' (⟨name, type, doc⟩ :: rest) ((name, shape) :: shapes) := by
  cases h with
  | typed hdenotes =>
      refine ⟨by rw [List.map_cons, List.map_cons, hrest.names], fun defs hdefs hknown => ?_⟩
      rw [tableOfFields] at hdefs
      obtain ⟨hfirst, hlater⟩ := hdefs.append
      obtain ⟨hknown₁, htype⟩ := hdenotes defs hfirst hknown
      obtain ⟨hknown', hfields⟩ := hrest.denotes defs hlater hknown₁
      exact ⟨hknown', .cons htype hfields⟩

theorem RepresentsFields.append {p p₁ p' : Progress} {xs ys : List (AvroField AvroType)}
    {shapes shapes' : List (String × FieldShape)} (hxs : RepresentsFields s p p₁ xs shapes)
    (hys : RepresentsFields s p₁ p' ys shapes') :
    RepresentsFields s p p' (xs ++ ys) (shapes ++ shapes') := by
  refine ⟨by rw [List.map_append, List.map_append, hxs.names, hys.names],
    fun defs hdefs hknown => ?_⟩
  rw [AvroType.tableOfFields_append] at hdefs
  obtain ⟨hfirst, hlater⟩ := hdefs.append
  obtain ⟨hknown₁, hfields⟩ := hxs.denotes defs hfirst hknown
  obtain ⟨hknown', hfields'⟩ := hys.denotes defs hlater hknown₁
  exact ⟨hknown', hfields.append hfields'⟩

/-! ### Parts -/

/-- An emitter that starts with certain nodes in progress writes the shapes of nodes. -/
structure WritesShapes (s : Schema) (n : Nat) (active : List NodeId) (emit : TypeEmitter) :
    Prop where
  ends : ∀ {id hint p result}, p.Tidy s → p.active = active → s.Reached id →
    s.ShapedWithin n id result → Ends s.HasNonTextSymbol (emit id hint) p fun type p' =>
      Continues s p p' ∧ Represents s p p' type result

structure WritesFieldShapes (s : Schema) (n : Nat) (active : List NodeId)
    (emit : NodeId → Emitter (List (AvroField AvroType))) : Prop where
  ends : ∀ {branch target p result own}, p.Tidy s → p.active = active → s.Reached branch →
    s.dereference branch = .ok target → s.ShapedWithin n target result →
    Schema.AddsFields result own → Ends s.HasNonTextSymbol (emit branch) p fun fields p' =>
      Continues s p p' ∧ RepresentsFields s p p' fields own

theorem symbols_ends {literals : List Json} {p : Progress}
    (h : (∃ literal ∈ literals, ∀ text, literal ≠ .string text) → s.HasNonTextSymbol) :
    Ends s.HasNonTextSymbol (symbols literals) p fun _ p' => p' = p := by
  induction literals with
  | nil => exact .pure rfl
  | cons literal rest ih =>
      cases literal with
      | string symbol =>
          rw [symbols]
          refine (ih ?_).bind fun _ _ _ heq => .pure heq
          rintro ⟨literal, hmem, htext⟩
          exact h ⟨literal, List.mem_cons_of_mem _ hmem, htext⟩
      | _ => exact .fail (h ⟨_, List.mem_cons_self, fun _ heq => by cases heq⟩)

theorem emitProperties_ends {emit : TypeEmitter} {n : Nat} {active : List NodeId}
    (hemit : WritesShapes s n active emit) (record : String)
    {properties : List (String × NodeId)} {shapes : List (String × FieldShape)} {p : Progress}
    (hp : p.Tidy s) (hactive : p.active = active)
    (hreached : ∀ property ∈ properties, s.Reached property.2)
    (h : Schema.Lists (s.ShapedWithin n) properties shapes) :
    Ends s.HasNonTextSymbol (emitProperties emit s record properties) p fun fields p' =>
      Continues s p p' ∧ RepresentsFields s p p' fields shapes := by
  induction h generalizing p with
  | nil =>
      refine .pure ⟨.refl hp, rfl, fun defs _ hknown => ⟨hknown, .nil⟩⟩
  | @dropped name id rest shapes huntyped _ ih =>
      obtain ⟨hfirst, hreached⟩ := List.forall_mem_cons.mp hreached
      rw [emitProperties]
      refine (hemit.ends hp hactive hfirst huntyped).bind ?_
      rintro result p₁ - ⟨hcontinues, hresult⟩
      cases hresult with
      | untyped hknown =>
          have hdropped := hcontinues.warnDropped name record
          have hrest := ih hdropped.tidy (hdropped.active.trans hactive) hreached
          refine .modify_bind (hrest.imp ?_)
          rintro fields p' ⟨hlater, hfields⟩
          exact ⟨hdropped.trans hlater, hfields.names, fun defs hdefs hstart =>
            hfields.denotes defs hdefs (hknown defs hstart)⟩
  | @kept name id rest shape shapes htyped _ ih =>
      obtain ⟨hfirst, hreached⟩ := List.forall_mem_cons.mp hreached
      rw [emitProperties]
      refine (hemit.ends hp hactive hfirst htyped).bind ?_
      rintro result p₁ - ⟨hcontinues, hresult⟩
      cases hresult with
      | typed hdenotes =>
          have hrest := ih hcontinues.tidy (hcontinues.active.trans hactive) hreached
          refine hrest.bind ?_
          rintro fields p' - ⟨hlater, hfields⟩
          exact .pure ⟨hcontinues.trans hlater, Represents.trans_fields (.typed hdenotes) hfields⟩

theorem emitBranches_ends {emit : NodeId → Emitter (List (AvroField AvroType))} {n : Nat}
    {active : List NodeId} (hemit : WritesFieldShapes s n active emit) {ids : List NodeId}
    {shapes : List (String × FieldShape)} {p : Progress} (hp : p.Tidy s)
    (hactive : p.active = active) (hreached : ∀ id ∈ ids, s.Reached id)
    (h : s.Inherits (s.ShapedWithin n) ids shapes) :
    Ends s.HasNonTextSymbol (emitBranches emit ids) p fun fields p' =>
      Continues s p p' ∧ RepresentsFields s p p' fields shapes := by
  induction h generalizing p with
  | nil => exact .pure ⟨.refl hp, rfl, fun defs _ hknown => ⟨hknown, .nil⟩⟩
  | cons htarget hresult hadds _ ih =>
      obtain ⟨hfirst, hreached⟩ := List.forall_mem_cons.mp hreached
      rw [emitBranches]
      refine (hemit.ends hp hactive hfirst htarget hresult hadds).bind ?_
      rintro first p₁ - ⟨hcontinues, hfields⟩
      refine (ih hcontinues.tidy (hcontinues.active.trans hactive) hreached).bind ?_
      rintro later p' - ⟨hlater, hfields'⟩
      exact .pure ⟨hcontinues.trans hlater, hfields.append hfields'⟩

theorem checkNames_eq {record : String} {fields : List (AvroField AvroType)}
    (h : (fields.map AvroField.name).Nodup) : checkNames record fields = pure fields := by
  have hnone : firstRepeated? [] (fields.map AvroField.name) = none :=
    firstRepeated?_eq_none.mpr ⟨h, fun _ _ => List.not_mem_nil⟩
  rw [checkNames, hnone]

/-- The record of an object: the fields of its properties, and then those of its branches. -/
theorem object_ends {emit : TypeEmitter} {branch : NodeId → Emitter (List (AvroField AvroType))}
    {n : Nat} {active : List NodeId} (hemit : WritesShapes s n active emit)
    (hbranch : WritesFieldShapes s n active branch) (name : String) (doc : Option String)
    {p : Progress} (hp : p.Tidy s) (hactive : p.active = active) {shape : ObjectShape}
    (hparts : ∀ c ∈ shape.children, s.Reached c) {own inherited : List (String × FieldShape)}
    (h : s.HasFields (s.ShapedWithin n) shape own inherited) :
    Ends s.HasNonTextSymbol (do
        let own ← emitProperties emit s name shape.properties
        let inherited ← emitBranches branch shape.allOf
        let fields ← checkNames name (own ++ inherited)
        return some (AvroType.record name doc fields)) p fun type p' =>
      Continues s p p' ∧ ∃ fields, type = some (AvroType.record name doc fields) ∧
        RepresentsFields s p p' fields (own ++ inherited) := by
  have hown := emitProperties_ends hemit name hp hactive
    (fun property hmem => hparts _ (List.mem_append_left _ (List.mem_map_of_mem hmem))) h.lists
  refine hown.bind ?_
  rintro fields p₁ - ⟨hcontinues, hrepresents⟩
  have hinherited := emitBranches_ends hbranch hcontinues.tidy
    (hcontinues.active.trans hactive)
    (fun branch hmem => hparts _ (List.mem_append_right _ hmem)) h.inherits
  refine hinherited.bind ?_
  rintro fields' p' - ⟨hlater, hrepresents'⟩
  have hall := hrepresents.append hrepresents'
  have hnames : ((fields ++ fields').map AvroField.name).Nodup := by
    rw [hall.names]
    exact h.names
  rw [checkNames_eq hnames]
  exact .pure ⟨hcontinues.trans hlater, _, rfl, hall⟩

/-! ### Entering and leaving a node -/

theorem Known.enter {defs : List (String × AvroType)} {p : Progress} (h : Known s defs p)
    (id : NodeId) : Known s defs (p.enter id) :=
  fun other name n shape hname hother hshape =>
    h other name n shape hname (fun hmem => hother (List.mem_cons_of_mem _ hmem)) hshape

theorem Known.define {defs : List (String × AvroType)} {p : Progress} (h : Known s defs p)
    (id : NodeId) (base : String) : Known s defs ((p.define id base).2.enter id) := by
  intro other name n shape hname hother hshape
  rcases List.mem_cons.mp hname with heq | hname
  · cases heq
    exact (hother List.mem_cons_self).elim
  · exact h other name n shape hname (fun hmem => hother (List.mem_cons_of_mem _ hmem)) hshape

/-- A node that is left is known if each name that it has stands for its shape. -/
theorem Known.leave {defs : List (String × AvroType)} {p : Progress} {id : NodeId}
    {active : List NodeId} (h : Known s defs p) (hactive : p.active = id :: active)
    (hself : ∀ name n shape, (id, name) ∈ p.named → s.ShapedWithin n id (some shape) →
      Denotes defs (.named name) shape) : Known s defs (p.leave id) := by
  intro other name n shape hname hother hshape
  by_cases hsame : other = id
  · subst hsame
    exact hself name n shape hname hshape
  · refine h other name n shape hname (fun hmem => hother ?_) hshape
    exact List.mem_filter.mpr ⟨hmem, by simpa using hsame⟩

theorem Progress.leave_active {p : Progress} {id : NodeId} {active : List NodeId}
    (h : p.active = id :: active) (hnew : id ∉ active) : (p.leave id).active = active := by
  show p.active.filter (· ≠ id) = active
  rw [h, List.filter_cons_of_neg (by simp), List.filter_eq_self]
  intro other hother
  rw [decide_eq_true_iff]
  rintro rfl
  exact hnew hother

/-! ### Nodes -/

theorem ShapedBy.some_of_definition {R : NodeId → Option FieldShape → Prop} {kind : Kind}
    {result : Option FieldShape} (h : s.ShapedBy R kind result)
    (hdefinition : isDefinition kind = true) : ∃ shape, result = some shape := by
  cases h with
  | enumeration => exact ⟨_, rfl⟩
  | object => exact ⟨_, rfl⟩
  | _ => cases hdefinition

/-- Only an object is a group itself. -/
theorem isDefinition_of_group {R : NodeId → Option FieldShape → Prop} {kind : Kind}
    {fields : List (String × FieldShape)} (h : s.ShapedBy R kind (some (.group fields)))
    (hreference : kind.isReference = false) : isDefinition kind = true := by
  generalize hresult : some (FieldShape.group fields) = result at h
  cases h with
  | @primitive type shape hshape =>
      rw [← hresult] at hshape
      cases type <;> cases hshape
  | object => rfl
  | reference => cases hreference
  | _ => cases hresult

section

variable {defaultName : String} {budget n : Nat} {p : Progress} {id : NodeId}
  {hint : Option String} {result : Option FieldShape}

theorem visit_ends
    (hemit : ∀ {n active}, Above s n active → demand s active + 2 ≤ budget →
      WritesShapes s n active (emit s defaultName budget))
    (hbranch : ∀ {n active}, Above s n active → demand s active + 2 ≤ budget →
      WritesFieldShapes s n active (branchFields s defaultName budget))
    {name : String} (hp : p.Tidy s) (hreached : s.Reached id) (habove : Above s n p.active)
    (hbudget : demand s p.active + 2 ≤ budget)
    (h : s.ShapedBy (s.ShapedWithin n) (s.node id).kind result) :
    Ends s.HasNonTextSymbol (visit s defaultName (budget + 1) id hint name) p fun type p' =>
      Continues s p p' ∧ VisitRepresents s p p' id name type result := by
  have hwrites := hemit habove hbudget
  have hfields := hbranch habove hbudget
  rw [visit]
  generalize hkind : (s.node id).kind = kind at h
  cases h with
  | untyped =>
      dsimp only
      exact .pure ⟨.refl hp, .inline (by rw [hkind]; rfl) (.untyped fun _ hknown => hknown)⟩
  | primitive hshape =>
      dsimp only
      refine .pure ⟨.refl hp, .inline (by rw [hkind]; rfl) (.typed fun _ _ hknown => ?_)⟩
      exact ⟨hknown, .primitive rfl hshape⟩
  | @enumeration literals =>
      dsimp only
      have hends : Ends s.HasNonTextSymbol (symbols literals) p fun _ p' => p' = p := by
        apply symbols_ends
        rintro ⟨literal, hmem, htext⟩
        exact ⟨id, literals, literal, hreached, hkind, hmem, htext⟩
      refine hends.bind fun found p' _ heq => .pure ?_
      subst heq
      exact ⟨.refl hp, .enumeration (by rw [hkind]; rfl) fun _ hknown => hknown⟩
  | @array items shape hitems =>
      dsimp only
      have hpart : s.Reached items := hreached.part (by rw [hkind]; exact List.mem_singleton_self _)
      refine (hwrites.ends hp rfl hpart hitems).bind ?_
      rintro type p' - ⟨hcontinues, hrepresents⟩
      cases hrepresents with
      | typed hdenotes =>
          refine .pure ⟨hcontinues, .inline (by rw [hkind]; rfl) (.typed ?_)⟩
          intro defs hdefs hknown
          obtain ⟨hknown', hitem⟩ := hdenotes defs hdefs hknown
          exact ⟨hknown', .array hitem⟩
  | @object shape own inherited hhas =>
      dsimp only
      have hparts : ∀ c ∈ shape.children, s.Reached c :=
        fun c hc => hreached.part (by rw [hkind]; exact hc)
      refine (object_ends hwrites hfields name _ hp rfl hparts hhas).imp ?_
      rintro _ p' ⟨hcontinues, fields, rfl, hrepresents⟩
      exact ⟨hcontinues, .record (by rw [hkind]; rfl) hrepresents⟩
  | @reference text next result hnext =>
      dsimp only
      refine .get_bind ?_
      have hfree : ¬(next ∈ p.active ∧ (p.named.lookup next).isNone) :=
        fun hactive => habove next hactive.1 _ hnext
      rw [if_neg hfree]
      refine (hwrites.ends hp rfl (hreached.target hkind) hnext).imp fun type p' h => ?_
      exact ⟨h.1, .inline (by rw [hkind]; rfl) h.2⟩

theorem Above.enter {m : Nat} {active : List NodeId} (h : Above s n active) (hm : m ≤ n)
    (hself : ∀ result, ¬s.ShapedWithin m id result) : Above s m (id :: active) :=
  List.forall_mem_cons.mpr ⟨hself, fun other hother result hshape =>
    h other hother result (hshape.mono hm)⟩

theorem demand_enter {active : List NodeId} (hid : id < s.nodes.size) (hnew : id ∉ active) :
    demand s (id :: active) + 2 ≤ demand s active := by
  have hfewer := NodeId.unseen_cons_lt hid hnew
  unfold demand
  omega

theorem between_ends {F : Prop} {x : Emitter (Option AvroType)}
    {Q : Option AvroType → Progress → Prop} (h : Ends F x (p.enter id) Q) :
    Ends F (do
      modify (·.enter id)
      let type ← x
      modify (·.leave id)
      return type) p fun type p' => ∃ p₁, Q type p₁ ∧ p' = p₁.leave id :=
  .modify_bind (h.bind fun _ p₁ _ hq => .modify_bind (.pure ⟨p₁, hq, rfl⟩))

/-- A progress after a visit goes on from the one before it. -/
theorem Continues.leave {p₁ p' : Progress} (h : Continues s (p₁.enter id) p')
    (hbefore : p.named ⊆ p₁.named) (hnamed : ∀ e ∈ p₁.named, e.1 ≠ id → e ∈ p.named)
    (hactive : p₁.active = p.active) (hnew : id ∉ p.active) : Continues s p (p'.leave id) := by
  have hentered : (p₁.enter id).active = id :: p.active := congrArg (id :: ·) hactive
  refine ⟨((kept_extends s).leave p' id h.tidy).1, fun _ he => h.named (hbefore he),
    Progress.leave_active (h.active.trans hentered) hnew, fun e he hmem => ?_⟩
  have hearlier : e ∈ p₁.named := by
    apply h.unnamed e he
    rw [hentered]
    exact List.mem_cons_of_mem _ hmem
  refine hnamed e hearlier ?_
  rintro rfl
  exact hnew hmem

/-- What a visit returns is a type of the shape of the node, once the node has the name under which
it was visited. -/
theorem VisitRepresents.leave {p₁ p' : Progress} {name : String} {type : Option AvroType}
    (h : VisitRepresents s p₁ p' id name type result) (hp' : p'.Tidy s)
    (hactive : p'.active = id :: p.active) (hshape : s.ShapedWithin n id result)
    (hentered : ∀ defs, Known s defs p → Known s defs p₁)
    (hname : isDefinition (s.node id).kind = true → (id, name) ∈ p'.named) :
    Represents s p (p'.leave id) type result := by
  -- The node has that name only, and it stands for what was returned.
  have hleave {defs : List (String × AvroType)} {type : AvroType} {shape : FieldShape}
      (hresult : result = some shape) (hdefinition : isDefinition (s.node id).kind = true)
      (hfree : name ∉ tokens) (hlookup : defs.lookup name = some type)
      (hdenotes : Denotes defs type shape) (hknown : Known s defs p') :
      Known s defs (p'.leave id) := by
    refine hknown.leave hactive fun name' n' shape' hname' hshape' => ?_
    rw [hp'.name_unique hname' (hname hdefinition)]
    rw [hresult] at hshape
    cases hshape'.unique hshape
    exact .mention hfree hlookup hdenotes
  cases h with
  | @record doc fields shapes hdefinition hfields =>
      refine .typed fun defs hdefs hknown => ?_
      obtain ⟨⟨hfree, hlookup⟩, hinner⟩ := List.forall_mem_cons.mp hdefs
      obtain ⟨hknown', hdenotes⟩ := hfields.denotes defs hinner (hentered defs hknown)
      exact ⟨hleave rfl hdefinition hfree hlookup (.record hdenotes) hknown', .record hdenotes⟩
  | enumeration hdefinition hkeeps =>
      refine .typed fun defs hdefs hknown => ?_
      obtain ⟨⟨hfree, hlookup⟩, -⟩ := List.forall_mem_cons.mp hdefs
      have hknown' := hkeeps defs (hentered defs hknown)
      exact ⟨hleave rfl hdefinition hfree hlookup .enumeration hknown', .enumeration⟩
  | inline hdefinition h =>
      have hself {defs : List (String × AvroType)} (hknown : Known s defs p') :
          Known s defs (p'.leave id) :=
        hknown.leave hactive fun name' _ _ hname' => absurd hname' (hp'.not_mention hdefinition)
      cases h with
      | untyped hkeeps =>
          exact .untyped fun defs hknown => hself (hkeeps defs (hentered defs hknown))
      | typed hdenotes =>
          refine .typed fun defs hdefs hknown => ?_
          obtain ⟨hknown', htype⟩ := hdenotes defs hdefs (hentered defs hknown)
          exact ⟨hself hknown', htype⟩

theorem emit_ends (hs : s.WellFormed)
    (hvisit : ∀ {n p result} id hint name, p.Tidy s → s.Reached id → Above s n p.active →
      demand s p.active + 3 ≤ budget → s.ShapedBy (s.ShapedWithin n) (s.node id).kind result →
      Ends s.HasNonTextSymbol (visit s defaultName budget id hint name) p fun type p' =>
        Continues s p p' ∧ VisitRepresents s p p' id name type result)
    {active : List NodeId} (habove : Above s n active) (hbudget : demand s active + 1 ≤ budget) :
    WritesShapes s n active (emit s defaultName (budget + 1)) := by
  refine ⟨fun {id hint p result} hp hactive hreached hshape => ?_⟩
  subst hactive
  have hnew : id ∉ p.active := fun hmem => habove id hmem result hshape
  obtain ⟨m, hm, hby, hleast⟩ := hshape.least
  have hinside : Above s m (id :: p.active) := habove.enter hm.le hleast
  have hspare : demand s (id :: p.active) + 3 ≤ budget := by
    have henter := demand_enter (hreached.lt_size hs) hnew
    omega
  rw [emit]
  refine .get_bind ?_
  cases hlookup : p.named.lookup id with
  | some name =>
      have hmem := mem_of_lookup hlookup
      obtain ⟨shape, rfl⟩ := ShapedBy.some_of_definition hby (hp.definition _ hmem)
      refine .pure ⟨.refl hp, .typed fun defs _ hknown => ⟨hknown, ?_⟩⟩
      exact hknown id name n shape hmem hnew hshape
  | none =>
      by_cases hdefinition : isDefinition (s.node id).kind = true
      · simp only [hdefinition, if_true]
        refine .modifyGet_bind ?_
        have hdefined := hp.define (baseName defaultName (s.node id) hint) hlookup hdefinition
        have hends := hvisit id hint (p.define id (baseName defaultName (s.node id) hint)).1
          ((kept_extends s).enter _ id hdefined).1 hreached hinside hspare hby
        refine (between_ends hends).imp ?_
        rintro type _ ⟨p', ⟨hcontinues, hvisited⟩, rfl⟩
        have hnamed : ∀ e ∈ (p.define id (baseName defaultName (s.node id) hint)).2.named,
            e.1 ≠ id → e ∈ p.named := by
          intro e he hne
          refine (List.mem_cons.mp he).resolve_left ?_
          rintro rfl
          exact hne rfl
        refine ⟨hcontinues.leave (List.subset_cons_self _ _) hnamed rfl hnew, ?_⟩
        refine hvisited.leave hcontinues.tidy hcontinues.active hshape
          (fun defs hknown => hknown.define id _) fun _ => ?_
        exact hcontinues.named List.mem_cons_self
      · simp only [hdefinition]
        have hends := hvisit id hint (baseName defaultName (s.node id) hint)
          ((kept_extends s).enter p id hp).1 hreached hinside hspare hby
        refine (between_ends hends).imp ?_
        rintro type _ ⟨p', ⟨hcontinues, hvisited⟩, rfl⟩
        refine ⟨hcontinues.leave (List.Subset.refl _) (fun _ he _ => he) rfl hnew, ?_⟩
        exact hvisited.leave hcontinues.tidy hcontinues.active hshape
          (fun defs hknown => hknown.enter id) fun htrue => absurd htrue hdefinition

theorem branchFields_ends (hs : s.WellFormed)
    (hvisit : ∀ {n p result} id hint name, p.Tidy s → s.Reached id → Above s n p.active →
      demand s p.active + 3 ≤ budget → s.ShapedBy (s.ShapedWithin n) (s.node id).kind result →
      Ends s.HasNonTextSymbol (visit s defaultName budget id hint name) p fun type p' =>
        Continues s p p' ∧ VisitRepresents s p p' id name type result)
    {active : List NodeId} (habove : Above s n active) (hbudget : demand s active + 1 ≤ budget) :
    WritesFieldShapes s n active (branchFields s defaultName (budget + 1)) := by
  refine ⟨fun {branch target p result own} hp hactive hreached htarget hshape hadds => ?_⟩
  subst hactive
  have hnew : target ∉ p.active := fun hmem => habove target hmem result hshape
  obtain ⟨m, hm, hby, hleast⟩ := hshape.least
  have hinside : Above s m (target :: p.active) := habove.enter hm.le hleast
  have hspare : demand s (target :: p.active) + 3 ≤ budget := by
    have henter := demand_enter ((hreached.dereference htarget).lt_size hs) hnew
    omega
  rw [branchFields]
  refine .lift_bind htarget (.get_bind ?_)
  simp only [if_neg hnew]
  have hends := hvisit target none (baseName defaultName (s.node target) none)
    ((kept_extends s).enter p target hp).1 (hreached.dereference htarget) hinside hspare hby
  refine .modify_bind (hends.bind ?_)
  rintro type p' - ⟨hcontinues, hvisited⟩
  have hleft := hcontinues.leave (List.Subset.refl _) (fun _ he _ => he) rfl hnew
  -- The target gets no name as a branch, so what is known of it was known before.
  have hknown' {defs : List (String × AvroType)} (hknown : Known s defs p)
      (hafter : Known s defs p') : Known s defs (p'.leave target) := by
    refine hafter.leave hcontinues.active fun name n' shape hname hshape' => ?_
    exact hknown target name n' shape (hcontinues.unnamed _ hname List.mem_cons_self) hnew hshape'
  refine .modify_bind ?_
  cases hadds with
  | untyped =>
      cases hvisited with
      | inline _ h =>
          cases h with
          | untyped hkeeps =>
              refine .pure ⟨hleft, rfl, fun defs _ hknown => ⟨?_, .nil⟩⟩
              exact hknown' hknown (hkeeps defs (hknown.enter target))
  | group =>
      cases hvisited with
      | record _ hfields =>
          refine .pure ⟨hleft, hfields.names, fun defs hdefs hknown => ?_⟩
          obtain ⟨hafter, hdenotes⟩ := hfields.denotes defs hdefs (hknown.enter target)
          exact ⟨hknown' hknown hafter, hdenotes⟩
      | inline hdefinition =>
          rw [isDefinition_of_group hby (Schema.dereference_not_reference htarget)] at hdefinition
          cases hdefinition

/-- Every conversion of a node with a shape ends as it should, if its budget covers the nodes that
are not in progress. -/
theorem ends (hs : s.WellFormed) (defaultName : String) (budget : Nat) :
    (∀ {n active}, Above s n active → demand s active + 2 ≤ budget →
      WritesShapes s n active (emit s defaultName budget)) ∧
    (∀ {n p result} id hint name, p.Tidy s → s.Reached id → Above s n p.active →
      demand s p.active + 3 ≤ budget → s.ShapedBy (s.ShapedWithin n) (s.node id).kind result →
      Ends s.HasNonTextSymbol (visit s defaultName budget id hint name) p fun type p' =>
        Continues s p p' ∧ VisitRepresents s p p' id name type result) ∧
    ∀ {n active}, Above s n active → demand s active + 2 ≤ budget →
      WritesFieldShapes s n active (branchFields s defaultName budget) := by
  induction budget with
  | zero =>
      exact ⟨fun _ hbudget => (Nat.not_succ_le_zero _ hbudget).elim,
        fun _ _ _ _ _ _ hbudget => (Nat.not_succ_le_zero _ hbudget).elim,
        fun _ hbudget => (Nat.not_succ_le_zero _ hbudget).elim⟩
  | succ budget ih =>
      obtain ⟨hemit, hvisit, hbranch⟩ := ih
      refine ⟨fun habove hbudget => emit_ends hs hvisit habove (by omega),
        fun id hint name hp hreached habove hbudget => ?_,
        fun habove hbudget => branchFields_ends hs hvisit habove (by omega)⟩
      exact visit_ends hemit hbranch hp hreached habove (by omega)

end

end AvroEmission

end SchemaBridge
