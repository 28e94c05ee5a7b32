import SchemaBridge.Proofs.AvroNames

/-!
The steps of a conversion to Avro, one by one. A node that has a name is mentioned, and any other
one is entered, visited and left again; what a visit returns is told by the kind of the node. Main
statement: whatever holds from a progress to itself, goes on from one progress to the next, and is
kept by naming a node, by entering and leaving one and by a warning, holds of every conversion.
-/

namespace SchemaBridge

namespace AvroEmission

open Steps

variable {s : Schema} {defaultName : String} {budget : Nat}

/-- What an emitter does at a node: it mentions the name of the node, or it visits the node under a
new name if it is a definition, and without one otherwise. -/
inductive EmitStep (s : Schema) (defaultName : String) (budget : Nat) (id : NodeId)
    (hint : Option String) (p : Progress) : Option AvroType → Progress → Prop
  | mention {name : String} (hname : p.named.lookup id = some name) :
      EmitStep s defaultName budget id hint p (some (.named name)) p
  | define {result : Option AvroType} {name : String} {p₁ p' : Progress}
      (hnew : p.named.lookup id = none) (hkind : isDefinition (s.node id).kind = true)
      (hdefine : p.define id (baseName defaultName (s.node id) hint) = (name, p₁))
      (hvisit : (visit s defaultName budget id hint name).run (p₁.enter id) = .ok (result, p')) :
      EmitStep s defaultName budget id hint p result (p'.leave id)
  | inline {result : Option AvroType} {p' : Progress}
      (hnew : p.named.lookup id = none) (hkind : isDefinition (s.node id).kind = false)
      (hvisit : (visit s defaultName budget id hint (baseName defaultName (s.node id) hint)).run
        (p.enter id) = .ok (result, p')) :
      EmitStep s defaultName budget id hint p result (p'.leave id)

/-- What a visit of a node with a kind and a description returns. -/
inductive VisitStep (s : Schema) (defaultName : String) (budget : Nat) (hint : Option String)
    (name : String) (doc : Option String) (p : Progress) :
    Kind → Option AvroType → Progress → Prop
  | untyped : VisitStep s defaultName budget hint name doc p .untyped none p
  | primitive (type : Primitive) :
      VisitStep s defaultName budget hint name doc p (.primitive type)
        (some (.named type.avroName)) p
  | enumeration {literals : List Json} {found : List String}
      (hfound : (symbols literals).run p = .ok (found, p)) :
      VisitStep s defaultName budget hint name doc p (.enumeration literals)
        (some (.enumeration name found)) p
  | array {items : NodeId} {type : AvroType} {p' : Progress}
      (hitems : (emit s defaultName budget items hint).run p = .ok (some type, p')) :
      VisitStep s defaultName budget hint name doc p (.array items) (some (.array type)) p'
  | tuple {ids : List NodeId} {types : List AvroType} {items : AvroType} {p' : Progress}
      (htypes : (emitElements (emit s defaultName budget) hint 0 ids []).run p = .ok (types, p'))
      (hitems : types = [items] ∨ 2 ≤ types.length ∧ items = .union types) :
      VisitStep s defaultName budget hint name doc p (.tuple ids) (some (.array items)) p'
  | object {shape : ObjectShape} {own inherited : List (AvroField AvroType)} {p₁ p' : Progress}
      (hown : (emitProperties (emit s defaultName budget) s name shape.properties).run p =
        .ok (own, p₁))
      (hinherited : (emitBranches (branchFields s defaultName budget) shape.allOf).run p₁ =
        .ok (inherited, p'))
      (hnames : ((own ++ inherited).map AvroField.name).Nodup) :
      VisitStep s defaultName budget hint name doc p (.object shape)
        (some (.record name doc (own ++ inherited))) p'
  | reference {target : String} {next : NodeId} {result : Option AvroType} {p' : Progress}
      (hfree : next ∈ p.active → p.named.lookup next ≠ none)
      (hnext : (emit s defaultName budget next hint).run p = .ok (result, p')) :
      VisitStep s defaultName budget hint name doc p (.reference target (some next)) result p'
  | union {types : List JsonType} {members : List AvroType}
      (hmembers : (unionMembers types).run p = .ok (members, p)) :
      VisitStep s defaultName budget hint name doc p (.union types) (some (.union members)) p

/-- What a branch adds: the fields of its record, or none if it is untyped. -/
inductive BranchStep (s : Schema) (defaultName : String) (budget : Nat) (branch : NodeId)
    (p : Progress) : List (AvroField AvroType) → Progress → Prop
  | record {target : NodeId} {name : String} {doc : Option String}
      {fields : List (AvroField AvroType)} {p' : Progress}
      (htarget : s.dereference branch = .ok target) (hfresh : target ∉ p.active)
      (hvisit : (visit s defaultName budget target none
        (baseName defaultName (s.node target) none)).run (p.enter target) =
          .ok (some (.record name doc fields), p')) :
      BranchStep s defaultName budget branch p fields (p'.leave target)
  | untyped {target : NodeId} {p' : Progress} (htarget : s.dereference branch = .ok target)
      (hfresh : target ∉ p.active)
      (hvisit : (visit s defaultName budget target none
        (baseName defaultName (s.node target) none)).run (p.enter target) = .ok (none, p')) :
      BranchStep s defaultName budget branch p [] (p'.leave target)

theorem symbols_ok {literals : List Json} {p p' : Progress} {found : List String}
    (h : (symbols literals).run p = .ok (found, p')) : p' = p := by
  induction literals generalizing found with
  | nil => exact (pure_ok h).2
  | cons literal rest ih =>
      cases literal with
      | string symbol =>
          rw [symbols] at h
          obtain ⟨tail, p₁, htail, h⟩ := bind_ok h
          obtain ⟨-, rfl⟩ := pure_ok h
          exact ih htail
      | _ => exact (throw_ok h).elim

theorem avroName?_primitive {type : JsonType} {name : String} (h : type.avroName? = some name) :
    ∃ type : Primitive, name = type.avroName := by
  cases type with
  | primitive type => exact ⟨type, (Option.some.inj h).symm⟩
  | _ => cases h

theorem unionMembers_ok {types : List JsonType} {p p' : Progress} {members : List AvroType}
    (h : (unionMembers types).run p = .ok (members, p')) :
    p' = p ∧ ∃ names : List String, members = names.map .named ∧
      ∀ name ∈ names, ∃ type : Primitive, name = type.avroName := by
  induction types generalizing members with
  | nil =>
      obtain ⟨rfl, rfl⟩ := pure_ok h
      exact ⟨rfl, [], rfl, by simp⟩
  | cons type rest ih =>
      rw [unionMembers] at h
      split at h
      · rename_i name hname
        obtain ⟨tail, p₁, htail, h⟩ := bind_ok h
        obtain ⟨rfl, rfl⟩ := pure_ok h
        obtain ⟨rfl, names, rfl, hnames⟩ := ih htail
        exact ⟨rfl, name :: names, rfl,
          List.forall_mem_cons.mpr ⟨avroName?_primitive hname, hnames⟩⟩
      · exact (throw_ok h).elim

theorem between_ok {id : NodeId} {hint : Option String} {name : String} {p p' : Progress}
    {result : Option AvroType}
    (h : (do
      modify (·.enter id)
      let type ← visit s defaultName budget id hint name
      modify (·.leave id)
      return type : Emitter (Option AvroType)).run p = .ok (result, p')) :
    ∃ p₁, (visit s defaultName budget id hint name).run (p.enter id) = .ok (result, p₁) ∧
      p' = p₁.leave id := by
  obtain ⟨u, p₁, henter, h⟩ := bind_ok h
  obtain ⟨type, p₂, htype, h⟩ := bind_ok h
  obtain ⟨v, p₃, hleave, h⟩ := bind_ok h
  obtain ⟨rfl, rfl⟩ := pure_ok h
  cases modifyGet_ok henter
  cases modifyGet_ok hleave
  exact ⟨p₂, htype, rfl⟩

theorem emit_step {id : NodeId} {hint : Option String} {p p' : Progress}
    {result : Option AvroType}
    (h : (emit s defaultName (budget + 1) id hint).run p = .ok (result, p')) :
    EmitStep s defaultName budget id hint p result p' := by
  rw [emit] at h
  replace h := get_bind_ok h
  split at h
  · rename_i name hname
    obtain ⟨rfl, rfl⟩ := pure_ok h
    exact .mention hname
  · rename_i hnew
    by_cases hkind : isDefinition (s.node id).kind = true
    · simp only [hkind, if_true] at h
      obtain ⟨name, p₁, hname, h⟩ := bind_ok h
      obtain ⟨p₂, hvisit, rfl⟩ := between_ok h
      exact .define hnew hkind (modifyGet_ok hname).symm hvisit
    · simp only [hkind] at h
      obtain ⟨name, p₁, hname, h⟩ := bind_ok h
      obtain ⟨rfl, rfl⟩ := pure_ok hname
      obtain ⟨p₂, hvisit, rfl⟩ := between_ok h
      exact .inline hnew (eq_false_of_ne_true hkind) hvisit

theorem tupleItems_cases {types : List AvroType} {p p' : Progress} {items : AvroType}
    (h : (tupleItems types).run p = .ok (items, p')) :
    p' = p ∧ (types = [items] ∨ 2 ≤ types.length ∧ items = .union types) := by
  unfold tupleItems at h
  split at h
  · exact (throw_ok h).elim
  · obtain ⟨rfl, rfl⟩ := pure_ok h
    exact ⟨rfl, .inl rfl⟩
  · rename_i hnil hone
    obtain ⟨rfl, rfl⟩ := pure_ok h
    refine ⟨rfl, .inr ⟨?_, rfl⟩⟩
    match types, hnil, hone with
    | [], hnil, _ => exact (hnil rfl).elim
    | [type], _, hone => exact (hone type rfl).elim
    | _ :: _ :: _, _, _ => simp

theorem checkNames_nodup {record : String} {fields found : List (AvroField AvroType)}
    {p p' : Progress} (h : (checkNames record fields).run p = .ok (found, p')) :
    found = fields ∧ p' = p ∧ (fields.map AvroField.name).Nodup := by
  unfold checkNames at h
  split at h
  · exact (throw_ok h).elim
  · rename_i hnone
    obtain ⟨rfl, rfl⟩ := pure_ok h
    exact ⟨rfl, rfl, (firstRepeated?_eq_none.mp hnone).1⟩

theorem visit_step {id : NodeId} {hint : Option String} {name : String} {p p' : Progress}
    {result : Option AvroType}
    (h : (visit s defaultName (budget + 1) id hint name).run p = .ok (result, p')) :
    VisitStep s defaultName budget hint name (s.node id).description p (s.node id).kind result
      p' := by
  rw [visit] at h
  cases hkind : (s.node id).kind with
  | untyped =>
      simp only [hkind] at h
      obtain ⟨rfl, rfl⟩ := pure_ok h
      exact .untyped
  | primitive type =>
      simp only [hkind] at h
      obtain ⟨rfl, rfl⟩ := pure_ok h
      exact .primitive type
  | enumeration literals =>
      simp only [hkind] at h
      obtain ⟨found, p₁, hfound, h⟩ := bind_ok h
      obtain ⟨rfl, rfl⟩ := pure_ok h
      obtain rfl := symbols_ok hfound
      exact .enumeration hfound
  | array items =>
      simp only [hkind] at h
      obtain ⟨item, p₁, hitem, h⟩ := bind_ok h
      cases item with
      | none => exact (throw_ok h).elim
      | some type =>
          obtain ⟨rfl, rfl⟩ := pure_ok h
          exact .array hitem
  | tuple ids =>
      simp only [hkind] at h
      obtain ⟨types, p₁, htypes, h⟩ := bind_ok h
      obtain ⟨items, p₂, hitems, h⟩ := bind_ok h
      obtain ⟨rfl, rfl⟩ := pure_ok h
      obtain ⟨rfl, hcases⟩ := tupleItems_cases hitems
      exact .tuple htypes hcases
  | object shape =>
      simp only [hkind] at h
      obtain ⟨own, p₁, hown, h⟩ := bind_ok h
      obtain ⟨inherited, p₂, hinherited, h⟩ := bind_ok h
      obtain ⟨fields, p₃, hfields, h⟩ := bind_ok h
      obtain ⟨rfl, rfl⟩ := pure_ok h
      obtain ⟨rfl, rfl, hnames⟩ := checkNames_nodup hfields
      exact .object hown hinherited hnames
  | reference target resolved =>
      cases resolved with
      | none => simp only [hkind] at h; exact (throw_ok h).elim
      | some next =>
          simp only [hkind] at h
          replace h := get_bind_ok h
          split at h
          · exact (throw_ok h).elim
          · rename_i hfree
            refine .reference (fun hactive hnone => hfree ⟨hactive, ?_⟩) h
            rw [hnone]
            rfl
  | union types =>
      simp only [hkind] at h
      obtain ⟨members, p₁, hmembers, h⟩ := bind_ok h
      obtain ⟨rfl, rfl⟩ := pure_ok h
      obtain ⟨rfl, -⟩ := unionMembers_ok hmembers
      exact .union hmembers

theorem branch_step {branch : NodeId} {p p' : Progress} {fields : List (AvroField AvroType)}
    (h : (branchFields s defaultName (budget + 1) branch).run p = .ok (fields, p')) :
    BranchStep s defaultName budget branch p fields p' := by
  rw [branchFields] at h
  obtain ⟨target, htarget, h⟩ := lift_bind_ok h
  replace h := get_bind_ok h
  split at h
  · exact (throw_ok h).elim
  · rename_i hfresh
    obtain ⟨u, p₁, henter, h⟩ := bind_ok h
    obtain ⟨type, p₂, htype, h⟩ := bind_ok h
    obtain ⟨v, p₃, hleave, h⟩ := bind_ok h
    cases modifyGet_ok henter
    cases modifyGet_ok hleave
    split at h
    · obtain ⟨rfl, rfl⟩ := pure_ok h
      exact .record htarget hfresh htype
    · obtain ⟨rfl, rfl⟩ := pure_ok h
      exact .untyped htarget hfresh htype
    · exact (throw_ok h).elim

/-! ### What every conversion keeps -/

/-- A relation between the progress before and after, which goes on from one step to the next. -/
structure Chained (R : Progress → Progress → Prop) : Prop where
  refl : ∀ p, R p p
  trans : ∀ p p₁ p', R p p₁ → R p₁ p' → R p p'
  warnDropped : ∀ p field record, R p (p.warnDropped field record)

/-- A chained relation that naming a node keeps, and entering a node and leaving it again around
what keeps it. -/
structure Enclosed (s : Schema) (R : Progress → Progress → Prop) : Prop extends Chained R where
  define : ∀ p id base, p.named.lookup id = none → isDefinition (s.node id).kind = true →
    R p (p.define id base).2
  around : ∀ p p' id, R (p.enter id) p' → R p (p'.leave id)

/-- A relation between the progress before and after, which each single change keeps. -/
structure Kept (s : Schema) (R : Progress → Progress → Prop) : Prop extends Chained R where
  define : ∀ p id base, p.named.lookup id = none → isDefinition (s.node id).kind = true →
    R p (p.define id base).2
  enter : ∀ p id, R p (p.enter id)
  leave : ∀ p id, R p (p.leave id)

section

variable {R : Progress → Progress → Prop}

theorem Kept.enclosed (hR : Kept s R) : Enclosed s R :=
  { hR with
    around := fun p p' id h =>
      hR.trans _ _ _ (hR.enter p id) (hR.trans _ _ _ h (hR.leave p' id)) }

section

variable (hR : Chained R)

include hR

theorem emitElements_kept {emit : TypeEmitter}
    (hemit : ∀ {id hint p p' result}, (emit id hint).run p = .ok (result, p') → R p p')
    {hint : Option String} {index : Nat} {ids : List NodeId} {types found : List AvroType}
    {p p' : Progress} (h : (emitElements emit hint index ids types).run p = .ok (found, p')) :
    R p p' := by
  induction ids generalizing index types p with
  | nil =>
      obtain ⟨rfl, rfl⟩ := pure_ok h
      exact hR.refl p'
  | cons id rest ih =>
      rw [emitElements] at h
      obtain ⟨result, p₁, hresult, h⟩ := bind_ok h
      cases result with
      | none => exact (throw_ok h).elim
      | some type => exact hR.trans _ _ _ (hemit hresult) (ih h)

theorem emitProperties_kept {emit : TypeEmitter}
    (hemit : ∀ {id hint p p' result}, (emit id hint).run p = .ok (result, p') → R p p')
    {record : String} {properties : List (String × NodeId)} {fields : List (AvroField AvroType)}
    {p p' : Progress} (h : (emitProperties emit s record properties).run p = .ok (fields, p')) :
    R p p' := by
  induction properties generalizing fields p with
  | nil =>
      obtain ⟨rfl, rfl⟩ := pure_ok h
      exact hR.refl p'
  | cons property rest ih =>
      obtain ⟨name, id⟩ := property
      rw [emitProperties] at h
      obtain ⟨result, p₁, hresult, h⟩ := bind_ok h
      cases result with
      | none =>
          obtain ⟨u, p₂, hwarn, h⟩ := bind_ok h
          cases modifyGet_ok hwarn
          exact hR.trans _ _ _ (hemit hresult) (hR.trans _ _ _ (hR.warnDropped _ _ _) (ih h))
      | some type =>
          obtain ⟨tail, p₂, htail, h⟩ := bind_ok h
          obtain ⟨rfl, rfl⟩ := pure_ok h
          exact hR.trans _ _ _ (hemit hresult) (ih htail)

theorem emitBranches_kept {emit : NodeId → Emitter (List (AvroField AvroType))}
    (hemit : ∀ {id p p' fields}, (emit id).run p = .ok (fields, p') → R p p')
    {ids : List NodeId} {fields : List (AvroField AvroType)} {p p' : Progress}
    (h : (emitBranches emit ids).run p = .ok (fields, p')) : R p p' := by
  induction ids generalizing fields p with
  | nil =>
      obtain ⟨rfl, rfl⟩ := pure_ok h
      exact hR.refl p'
  | cons id rest ih =>
      rw [emitBranches] at h
      obtain ⟨first, p₁, hfirst, h⟩ := bind_ok h
      obtain ⟨later, p₂, hlater, h⟩ := bind_ok h
      obtain ⟨rfl, rfl⟩ := pure_ok h
      exact hR.trans _ _ _ (hemit hfirst) (ih hlater)

/-! Each element of a list is run, with what is related to the progress before and after. -/

theorem emitElements_mem {emit : TypeEmitter}
    (hemit : ∀ {id hint p p' result}, (emit id hint).run p = .ok (result, p') → R p p')
    {hint : Option String} {index : Nat} {ids : List NodeId} {types found : List AvroType}
    {p p' : Progress} (h : (emitElements emit hint index ids types).run p = .ok (found, p'))
    {id : NodeId} (hmem : id ∈ ids) :
    ∃ p₁ p₂ result, R p p₁ ∧ (emit id hint).run p₁ = .ok (result, p₂) ∧ R p₂ p' := by
  induction ids generalizing index types p with
  | nil => exact (List.not_mem_nil hmem).elim
  | cons c rest ih =>
      rw [emitElements] at h
      obtain ⟨result, p₁, hresult, hrest⟩ := bind_ok h
      cases result with
      | none => exact (throw_ok hrest).elim
      | some type =>
          rcases List.mem_cons.mp hmem with rfl | hmem
          · exact ⟨p, p₁, _, hR.refl p, hresult, emitElements_kept hR hemit hrest⟩
          · obtain ⟨p₂, p₃, found, hbefore, hrun, hafter⟩ := ih hrest hmem
            exact ⟨p₂, p₃, found, hR.trans _ _ _ (hemit hresult) hbefore, hrun, hafter⟩

theorem emitProperties_mem {emit : TypeEmitter}
    (hemit : ∀ {id hint p p' result}, (emit id hint).run p = .ok (result, p') → R p p')
    {record : String} {properties : List (String × NodeId)} {fields : List (AvroField AvroType)}
    {p p' : Progress} (h : (emitProperties emit s record properties).run p = .ok (fields, p'))
    {name : String} {id : NodeId} (hmem : (name, id) ∈ properties) :
    ∃ p₁ p₂ result, R p p₁ ∧ (emit id (some name)).run p₁ = .ok (result, p₂) ∧ R p₂ p' := by
  induction properties generalizing fields p with
  | nil => exact (List.not_mem_nil hmem).elim
  | cons property rest ih =>
      obtain ⟨name', id'⟩ := property
      rw [emitProperties] at h
      obtain ⟨result, p₁, hresult, h⟩ := bind_ok h
      -- whether or not the property is dropped, the later ones are run after it
      obtain ⟨p₂, later, hkeep, hlater⟩ : ∃ p₂ later, R p₁ p₂ ∧
          (emitProperties emit s record rest).run p₂ = .ok (later, p') := by
        cases result with
        | none =>
            obtain ⟨u, p₂, hwarn, h⟩ := bind_ok h
            cases modifyGet_ok hwarn
            exact ⟨_, _, hR.warnDropped _ _ _, h⟩
        | some type =>
            obtain ⟨tail, p₂, htail, h⟩ := bind_ok h
            obtain ⟨rfl, rfl⟩ := pure_ok h
            exact ⟨p₁, tail, hR.refl p₁, htail⟩
      rcases List.mem_cons.mp hmem with heq | hmem
      · cases heq
        exact ⟨p, p₁, result, hR.refl p, hresult,
          hR.trans _ _ _ hkeep (emitProperties_kept hR hemit hlater)⟩
      · obtain ⟨p₃, p₄, found, hbefore, hrun, hafter⟩ := ih hlater hmem
        exact ⟨p₃, p₄, found, hR.trans _ _ _ (hemit hresult) (hR.trans _ _ _ hkeep hbefore), hrun,
          hafter⟩

theorem emitBranches_mem {emit : NodeId → Emitter (List (AvroField AvroType))}
    (hemit : ∀ {id p p' fields}, (emit id).run p = .ok (fields, p') → R p p')
    {ids : List NodeId} {fields : List (AvroField AvroType)} {p p' : Progress}
    (h : (emitBranches emit ids).run p = .ok (fields, p')) {id : NodeId} (hmem : id ∈ ids) :
    ∃ p₁ p₂ found, R p p₁ ∧ (emit id).run p₁ = .ok (found, p₂) ∧ R p₂ p' := by
  induction ids generalizing fields p with
  | nil => exact (List.not_mem_nil hmem).elim
  | cons c rest ih =>
      rw [emitBranches] at h
      obtain ⟨first, p₁, hfirst, h⟩ := bind_ok h
      obtain ⟨later, p₂, hlater, h⟩ := bind_ok h
      obtain ⟨rfl, rfl⟩ := pure_ok h
      rcases List.mem_cons.mp hmem with rfl | hmem
      · exact ⟨p, p₁, first, hR.refl p, hfirst, emitBranches_kept hR hemit hlater⟩
      · obtain ⟨p₃, p₄, found, hbefore, hrun, hafter⟩ := ih hlater hmem
        exact ⟨p₃, p₄, found, hR.trans _ _ _ (hemit hfirst) hbefore, hrun, hafter⟩

end

/-- An enclosed relation holds of every run, whatever its budget. -/
theorem Enclosed.runs (hR : Enclosed s R) (defaultName : String) (budget : Nat) :
    (∀ {id hint p p' result},
      (emit s defaultName budget id hint).run p = .ok (result, p') → R p p') ∧
    (∀ {id hint name p p' result},
      (visit s defaultName budget id hint name).run p = .ok (result, p') → R p p') ∧
    ∀ {branch p p' fields},
      (branchFields s defaultName budget branch).run p = .ok (fields, p') → R p p' := by
  induction budget with
  | zero =>
      exact ⟨fun h => (throw_ok h).elim, fun h => (throw_ok h).elim, fun h => (throw_ok h).elim⟩
  | succ budget ih =>
      obtain ⟨hemit, hvisit, hbranch⟩ := ih
      refine ⟨fun {id hint p p' result} h => ?_, fun {id hint name p p' result} h => ?_,
        fun {branch p p' fields} h => ?_⟩
      · cases emit_step h with
        | mention => exact hR.refl p
        | @define _ name p₁ p₂ hnew hkind hdefine hrun =>
            have hnamed := hR.define p id (baseName defaultName (s.node id) hint) hnew hkind
            rw [hdefine] at hnamed
            exact hR.trans _ _ _ hnamed (hR.around _ _ _ (hvisit hrun))
        | inline _ _ hrun => exact hR.around _ _ _ (hvisit hrun)
      · have hstep := visit_step h
        generalize (s.node id).kind = kind at hstep
        cases hstep with
        | untyped => exact hR.refl p
        | primitive => exact hR.refl p
        | enumeration => exact hR.refl p
        | array hitems => exact hemit hitems
        | tuple htypes => exact emitElements_kept hR.toChained hemit htypes
        | object hown hinherited =>
            exact hR.trans _ _ _ (emitProperties_kept hR.toChained hemit hown)
              (emitBranches_kept hR.toChained hbranch hinherited)
        | reference _ hnext => exact hemit hnext
        | union => exact hR.refl p
      · cases branch_step h with
        | record _ _ hrun => exact hR.around _ _ _ (hvisit hrun)
        | untyped _ _ hrun => exact hR.around _ _ _ (hvisit hrun)

/-- What each single change keeps holds of every run, whatever its budget. -/
theorem Kept.runs (hR : Kept s R) (defaultName : String) (budget : Nat) :
    (∀ {id hint p p' result},
      (emit s defaultName budget id hint).run p = .ok (result, p') → R p p') ∧
    (∀ {id hint name p p' result},
      (visit s defaultName budget id hint name).run p = .ok (result, p') → R p p') ∧
    ∀ {branch p p' fields},
      (branchFields s defaultName budget branch).run p = .ok (fields, p') → R p p' :=
  hR.enclosed.runs defaultName budget

end

end AvroEmission

end SchemaBridge
