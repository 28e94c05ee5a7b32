import SchemaBridge.Proofs.AvroSteps
import SchemaBridge.Proofs.NodeLinks

/-!
How a conversion to Avro breaks off, step by step. It breaks off at a node, in the visit of the node;
a visit breaks off in a part, in a branch or in a target, after some of its parts succeeded, or it
comes to a node that is in progress. Main statement: a visit that fails with a cycle or for lack of
budget has one of these causes.
-/

namespace SchemaBridge

/-- The links to the parts of a node that are converted on their own. -/
def Link.parts : List Link :=
  [.property, .item, .element]

theorem Schema.mem_children_of_goes {s : Schema} {id c : NodeId} (h : s.Goes Link.parts id c) :
    c ∈ (s.node id).kind.children := by
  obtain ⟨link, hlink, hlinked⟩ := h
  rcases hlinked.cases with hmem | ⟨rfl, -⟩
  · exact hmem
  · simp [Link.parts] at hlink

namespace AvroEmission

open Steps EmissionError

variable {s : Schema} {defaultName : String} {budget : Nat}

/-- A node without a name is visited under a name with a progress in which it is entered. A
definition gets its name before. -/
inductive Begins (s : Schema) (defaultName : String) (id : NodeId) (hint : Option String)
    (p : Progress) : String → Progress → Prop
  | define {name : String} {p₁ : Progress} (hnew : p.named.lookup id = none)
      (hkind : isDefinition (s.node id).kind = true)
      (hdefine : p.define id (baseName defaultName (s.node id) hint) = (name, p₁)) :
      Begins s defaultName id hint p name (p₁.enter id)
  | inline (hnew : p.named.lookup id = none) (hkind : isDefinition (s.node id).kind = false) :
      Begins s defaultName id hint p (baseName defaultName (s.node id) hint) (p.enter id)

/-- The progress of a visit that starts with a progress, between two of its parts or branches. -/
inductive Between (s : Schema) (defaultName : String) (budget : Nat) (id : NodeId)
    (hint : Option String) (name : String) (p : Progress) : Progress → Prop
  | start : Between s defaultName budget id hint name p p
  | elements {before after : List NodeId} {types : List AvroType} {p₁ : Progress}
      (hkind : (s.node id).kind = .tuple (before ++ after))
      (hrun : (emitElements (emit s defaultName budget) hint 0 before []).run p =
        .ok (types, p₁)) : Between s defaultName budget id hint name p p₁
  | properties {shape : ObjectShape} {before after : List (String × NodeId)}
      {own : List (AvroField AvroType)} {p₁ : Progress}
      (hkind : (s.node id).kind = .object shape) (hsplit : shape.properties = before ++ after)
      (hrun : (emitProperties (emit s defaultName budget) s name before).run p = .ok (own, p₁)) :
      Between s defaultName budget id hint name p p₁
  | branches {shape : ObjectShape} {before after : List NodeId}
      {own inherited : List (AvroField AvroType)} {p₁ p₂ : Progress}
      (hkind : (s.node id).kind = .object shape)
      (hown : (emitProperties (emit s defaultName budget) s name shape.properties).run p =
        .ok (own, p₁))
      (hsplit : shape.allOf = before ++ after)
      (hrun : (emitBranches (branchFields s defaultName budget) before).run p₁ =
        .ok (inherited, p₂)) : Between s defaultName budget id hint name p p₂

/-- Where a visit of a node breaks off. -/
inductive VisitBreaks (s : Schema) (defaultName : String) (budget : Nat) (id : NodeId)
    (hint : Option String) (name : String) (p : Progress) (e : EmissionError) : Prop
  | part {c : NodeId} {hint' : Option String} {p₁ : Progress}
      (hbetween : Between s defaultName budget id hint name p p₁)
      (hgoes : s.Goes Link.parts id c)
      (hrun : (emit s defaultName budget c hint').run p₁ = .error e)
  | branch {shape : ObjectShape} {c : NodeId} {p₁ : Progress}
      (hbetween : Between s defaultName budget id hint name p p₁)
      (hkind : (s.node id).kind = .object shape) (hmem : c ∈ shape.allOf)
      (hrun : (branchFields s defaultName budget c).run p₁ = .error e)
  | target {text : String} {next : NodeId}
      (hkind : (s.node id).kind = .reference text (some next))
      (hfree : next ∈ p.active → p.named.lookup next ≠ none)
      (hrun : (emit s defaultName budget next hint).run p = .error e)
  | reentry {text : String} {next : NodeId}
      (hkind : (s.node id).kind = .reference text (some next)) (hactive : next ∈ p.active)
      (hnew : p.named.lookup next = none) (herror : e = .cycle text)

/-- Where a branch breaks off. -/
inductive BranchBreaks (s : Schema) (defaultName : String) (budget : Nat) (branch : NodeId)
    (p : Progress) (e : EmissionError) : Prop
  | chain (hrun : s.dereference branch = .error e)
  | visit {target : NodeId} (htarget : s.dereference branch = .ok target)
      (hfresh : target ∉ p.active)
      (hrun : (visit s defaultName budget target none
        (baseName defaultName (s.node target) none)).run (p.enter target) = .error e)
  | reentry {target : NodeId} (htarget : s.dereference branch = .ok target)
      (hactive : target ∈ p.active) (herror : e = .cycle (branchLabel s branch))

variable {e : EmissionError}

/-- Between its parts a visit keeps what the parts keep. -/
theorem Between.kept {R : Progress → Progress → Prop} (hR : Chained R)
    (hemit : ∀ {id hint p p' result},
      (emit s defaultName budget id hint).run p = .ok (result, p') → R p p')
    (hbranch : ∀ {branch p p' fields},
      (branchFields s defaultName budget branch).run p = .ok (fields, p') → R p p')
    {id : NodeId} {hint : Option String} {name : String} {p p' : Progress}
    (h : Between s defaultName budget id hint name p p') : R p p' := by
  cases h with
  | start => exact hR.refl p
  | elements _ hrun => exact emitElements_kept hR hemit hrun
  | properties _ _ hrun => exact emitProperties_kept hR hemit hrun
  | branches _ hown _ hrun =>
      exact hR.trans _ _ _ (emitProperties_kept hR hemit hown) (emitBranches_kept hR hbranch hrun)

theorem between_error {id : NodeId} {hint : Option String} {name : String} {p : Progress}
    (h : (do
      modify (·.enter id)
      let type ← visit s defaultName budget id hint name
      modify (·.leave id)
      return type : Emitter (Option AvroType)).run p = .error e) :
    (visit s defaultName budget id hint name).run (p.enter id) = .error e := by
  replace h := modifyGet_bind_error h
  rcases bind_error h with hrun | ⟨type, p₁, -, h⟩
  · exact hrun
  · replace h := modifyGet_bind_error h
    exact (pure_error h).elim

theorem emit_breaks {id : NodeId} {hint : Option String} {p : Progress}
    (h : (emit s defaultName (budget + 1) id hint).run p = .error e) :
    ∃ name p', Begins s defaultName id hint p name p' ∧
      (visit s defaultName budget id hint name).run p' = .error e := by
  rw [emit] at h
  replace h := get_bind_error h
  split at h
  · exact (pure_error h).elim
  · rename_i hnew
    by_cases hkind : isDefinition (s.node id).kind = true
    · simp only [hkind, if_true] at h
      replace h := modifyGet_bind_error h
      exact ⟨_, _, .define hnew hkind rfl, between_error h⟩
    · simp only [hkind] at h
      exact ⟨_, _, .inline hnew (eq_false_of_ne_true hkind), between_error h⟩

theorem emitElements_breaks {emit : TypeEmitter} {hint : Option String} (he : IsBreak e)
    {index : Nat} {ids : List NodeId} {types : List AvroType} {p : Progress}
    (h : (emitElements emit hint index ids types).run p = .error e) :
    ∃ before c after found p₁, ids = before ++ c :: after ∧
      (emitElements emit hint index before types).run p = .ok (found, p₁) ∧
      (emit c hint).run p₁ = .error e := by
  induction ids generalizing index types p with
  | nil => exact (pure_error h).elim
  | cons id rest ih =>
      rw [emitElements] at h
      rcases bind_error h with hrun | ⟨result, p₁, hresult, h⟩
      · exact ⟨[], id, rest, types, p, rfl, rfl, hrun⟩
      · cases result with
        | none =>
            cases throw_error h
            cases he
        | some type =>
            obtain ⟨before, c, after, found, p₂, rfl, hbefore, hrun⟩ := ih h
            refine ⟨id :: before, c, after, found, p₂, rfl, ?_, hrun⟩
            rw [emitElements, StateT.run_bind, hresult]
            exact hbefore

theorem emitProperties_breaks {emit : TypeEmitter} {record : String}
    {properties : List (String × NodeId)} {p : Progress}
    (h : (emitProperties emit s record properties).run p = .error e) :
    ∃ before name c after found p₁, properties = before ++ (name, c) :: after ∧
      (emitProperties emit s record before).run p = .ok (found, p₁) ∧
      (emit c (some name)).run p₁ = .error e := by
  induction properties generalizing p with
  | nil => exact (pure_error h).elim
  | cons property rest ih =>
      obtain ⟨name, id⟩ := property
      rw [emitProperties] at h
      rcases bind_error h with hrun | ⟨result, p₁, hresult, h⟩
      · exact ⟨[], name, id, rest, [], p, rfl, rfl, hrun⟩
      · cases result with
        | none =>
            obtain ⟨before, name', c, after, found, p₂, rfl, hbefore, hrun⟩ :=
              ih (modifyGet_bind_error h)
            refine ⟨(name, id) :: before, name', c, after, found, p₂, rfl, ?_, hrun⟩
            rw [emitProperties, StateT.run_bind, hresult]
            exact hbefore
        | some type =>
            rcases bind_error h with hlater | ⟨later, p₂, -, h⟩
            · obtain ⟨before, name', c, after, found, p₂, rfl, hbefore, hrun⟩ := ih hlater
              refine ⟨(name, id) :: before, name', c, after,
                ⟨name, type, (s.node id).description⟩ :: found, p₂, rfl, ?_, hrun⟩
              have hlist : (emitProperties emit s record ((name, id) :: before)).run p =
                  ((emitProperties emit s record before).run p₁ >>= fun r =>
                    .ok (⟨name, type, (s.node id).description⟩ :: r.1, r.2)) := by
                rw [emitProperties, StateT.run_bind, hresult]
                rfl
              rw [hlist, hbefore]
              rfl
            · exact (pure_error h).elim

theorem emitBranches_breaks {emit : NodeId → Emitter (List (AvroField AvroType))}
    {ids : List NodeId} {p : Progress} (h : (emitBranches emit ids).run p = .error e) :
    ∃ before c after found p₁, ids = before ++ c :: after ∧
      (emitBranches emit before).run p = .ok (found, p₁) ∧ (emit c).run p₁ = .error e := by
  induction ids generalizing p with
  | nil => exact (pure_error h).elim
  | cons id rest ih =>
      rw [emitBranches] at h
      rcases bind_error h with hrun | ⟨first, p₁, hfirst, h⟩
      · exact ⟨[], id, rest, [], p, rfl, rfl, hrun⟩
      · rcases bind_error h with hlater | ⟨later, p₂, -, h⟩
        · obtain ⟨before, c, after, found, p₂, rfl, hbefore, hrun⟩ := ih hlater
          refine ⟨id :: before, c, after, first ++ found, p₂, rfl, ?_, hrun⟩
          have hlist : (emitBranches emit (id :: before)).run p =
              ((emitBranches emit before).run p₁ >>= fun r => .ok (first ++ r.1, r.2)) := by
            rw [emitBranches, StateT.run_bind, hfirst]
            rfl
          rw [hlist, hbefore]
          rfl
        · exact (pure_error h).elim

theorem not_isBreak_unsupported (what : Obstacle) : ¬IsBreak (.unsupported .avro what) :=
  nofun

theorem visit_object_breaks (he : IsBreak e) {id : NodeId} {hint : Option String} {name : String}
    {p : Progress} {shape : ObjectShape} (hkind : (s.node id).kind = .object shape)
    (h : (do
      let own ← emitProperties (emit s defaultName budget) s name shape.properties
      let inherited ← emitBranches (branchFields s defaultName budget) shape.allOf
      return some (.record name (s.node id).description (← checkNames name (own ++ inherited))) :
        Emitter (Option AvroType)).run p = .error e) :
    VisitBreaks s defaultName budget id hint name p e := by
  rcases bind_error h with hproperties | ⟨own, p₁, hown, h⟩
  · obtain ⟨before, field, c, after, found, p₁, hsplit, hbefore, hrun⟩ :=
      emitProperties_breaks hproperties
    have hmem : (field, c) ∈ shape.properties := by
      rw [hsplit]
      exact List.mem_append_cons_self
    exact .part (.properties hkind hsplit hbefore)
      ((Schema.Linked.property hkind hmem).goes (by decide)) hrun
  · rcases bind_error h with hbranches | ⟨inherited, p₂, -, h⟩
    · obtain ⟨before, c, after, found, p₂, hsplit, hbefore, hrun⟩ := emitBranches_breaks hbranches
      have hmem : c ∈ shape.allOf := by
        rw [hsplit]
        exact List.mem_append_cons_self
      exact .branch (.branches hkind hown hsplit hbefore) hkind hmem hrun
    · rcases bind_error h with hnames | ⟨fields, p₃, -, h⟩
      · exact (checkNames_runAvoids not_isBreak_unsupported _ _ _ _ hnames he).elim
      · exact (pure_error h).elim

theorem visit_breaks (he : IsBreak e) {id : NodeId} {hint : Option String} {name : String}
    {p : Progress} (h : (visit s defaultName (budget + 1) id hint name).run p = .error e) :
    VisitBreaks s defaultName budget id hint name p e := by
  rw [visit] at h
  cases hkind : (s.node id).kind with
  | untyped =>
      simp only [hkind] at h
      exact (pure_error h).elim
  | primitive type =>
      simp only [hkind] at h
      exact (pure_error h).elim
  | enumeration literals =>
      simp only [hkind] at h
      rcases bind_error h with hsymbols | ⟨found, p₁, -, h⟩
      · exact (symbols_runAvoids not_isBreak_unsupported _ _ _ hsymbols he).elim
      · exact (pure_error h).elim
  | array items =>
      simp only [hkind] at h
      rcases bind_error h with hrun | ⟨item, p₁, -, h⟩
      · exact .part .start ((Schema.Linked.item hkind).goes (by decide)) hrun
      · cases item with
        | none =>
            cases throw_error h
            cases he
        | some type => exact (pure_error h).elim
  | tuple ids =>
      simp only [hkind] at h
      rcases bind_error h with helements | ⟨types, p₁, -, h⟩
      · obtain ⟨before, c, after, found, p₁, rfl, hbefore, hrun⟩ :=
          emitElements_breaks he helements
        have hmem : c ∈ before ++ c :: after := List.mem_append_cons_self
        exact .part (.elements hkind hbefore)
          ((Schema.Linked.element hkind hmem).goes (by decide)) hrun
      · rcases bind_error h with hitems | ⟨items, p₂, -, h⟩
        · exact (tupleItems_runAvoids not_isBreak_unsupported _ _ _ hitems he).elim
        · exact (pure_error h).elim
  | object shape =>
      simp only [hkind] at h
      exact visit_object_breaks he hkind h
  | reference target resolved =>
      cases resolved with
      | none =>
          simp only [hkind] at h
          cases throw_error h
          cases he
      | some next =>
          simp only [hkind] at h
          replace h := get_bind_error h
          split at h
          · rename_i hre
            exact .reentry hkind hre.1 (Option.isNone_iff_eq_none.mp hre.2)
              (Except.error.inj h).symm
          · rename_i hfree
            refine .target hkind (fun hactive hnone => hfree ⟨hactive, ?_⟩) h
            rw [hnone]
            rfl
  | union types =>
      simp only [hkind] at h
      rcases bind_error h with hmembers | ⟨members, p₁, -, h⟩
      · exact (unionMembers_runAvoids not_isBreak_unsupported _ _ _ hmembers he).elim
      · exact (pure_error h).elim

theorem branch_breaks (he : IsBreak e) {branch : NodeId} {p : Progress}
    (h : (branchFields s defaultName (budget + 1) branch).run p = .error e) :
    BranchBreaks s defaultName budget branch p e := by
  rw [branchFields] at h
  rcases lift_bind_error h with hrun | ⟨target, htarget, h⟩
  · exact .chain hrun
  · replace h := get_bind_error h
    by_cases hactive : target ∈ p.active
    · simp only [if_pos hactive] at h
      exact .reentry htarget hactive (Except.error.inj h).symm
    · simp only [if_neg hactive] at h
      replace h := modifyGet_bind_error h
      rcases bind_error h with hrun | ⟨type, p₁, -, h⟩
      · exact .visit htarget hactive hrun
      · replace h := modifyGet_bind_error h
        split at h
        · exact (pure_error h).elim
        · exact (pure_error h).elim
        · cases throw_error h
          cases he

end AvroEmission

/-- A conversion breaks off in the references from the root, or at the object that they lead to. -/
theorem Schema.avroSchema_breaks {s : Schema} {settings : AvroSettings} {e : EmissionError}
    (he : e.IsBreak) (h : s.avroSchema settings = .error e) :
    s.dereference s.root = .error e ∨ ∃ root shape, s.rootObject = .ok (root, shape) ∧
      (AvroEmission.emit s settings.defaultName s.maxEmissionDepth root none).run {} =
        .error e := by
  rcases Steps.of_bind_error h with hnone | ⟨⟨root, shape⟩, hroot, h⟩
  · exact .inl (rootObject_breaks he hnone)
  · rcases Steps.of_bind_error h with hrun | ⟨⟨type, p⟩, -, h⟩
    · exact .inr ⟨root, shape, hroot, hrun⟩
    · cases type <;> cases h
      cases he

end SchemaBridge
