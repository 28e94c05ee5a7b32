import SchemaBridge.Proofs.AvroBreaks
import SchemaBridge.Proofs.AvroFields

/-!
Circles in a conversion to Avro. A definition has its name from the moment it is entered, so a
reference back to it is a mention. Nothing stands for an array, a tuple or an object that is
flattened into another one, so a reference back to one of these in progress is a cycle, and so is a
branch that leads back to any node in progress. Main statement: a conversion fails with a cycle only
in these two cases, with a walk from the node in progress to the reference or the branch, and it
never succeeds where references and branches alone, or references, items and elements alone, run in
a circle.
-/

namespace SchemaBridge

/-- Every link of a schema. -/
def Link.every : List Link :=
  [.property, .item, .element, .branch, .target]

/-- The links that lead from an array or a tuple to what stands in it, without a name between. -/
def Link.inList : List Link :=
  [.item, .element, .target]

namespace Schema

open AvroEmission

/-- A walk on which every node after the first one has a property. -/
abbrev WalksThrough (s : Schema) (P : NodeId → Prop) : NodeId → NodeId → Prop :=
  Relation.ReflTransGen fun id c => s.Goes Link.every id c ∧ P c

/-- The node is flattened into an object that the root leads to. -/
def Flattened (s : Schema) (id : NodeId) : Prop :=
  ∃ owner shape branch, s.Walks Link.every s.root owner ∧
    (s.node owner).kind = .object shape ∧ branch ∈ shape.allOf ∧ s.dereference branch = .ok id

/-- The root leads to a node on a walk that avoids another one. -/
def ReachedAround (s : Schema) (avoided id : NodeId) : Prop :=
  s.root ≠ avoided ∧ s.WalksThrough (· ≠ avoided) s.root id

/-- A definition that is not flattened may be met for the first time after the given node: the root
leads to that node around it. -/
def MetAfter (s : Schema) (first id : NodeId) : Prop :=
  isDefinition (s.node id).kind = true → s.Flattened id ∨ s.ReachedAround id first

/-- The root leads to a node, and that leads on to another one through definitions that may be met
after it. -/
structure Encloses (s : Schema) (first id : NodeId) : Prop where
  reached : s.Walks Link.every s.root first
  within : s.WalksThrough (s.MetAfter first) first id

/-- A circle that a conversion to Avro cannot break: within a node there is a reference back to it,
though it has no name of its own or is flattened, or an object with a branch back to it. The text
tells of the reference or the branch. -/
inductive UnnamedCircle (s : Schema) (text : String) : Prop
  | reference {first id : NodeId} (hencloses : s.Encloses first id)
      (hkind : (s.node id).kind = .reference text (some first))
      (hnone : isDefinition (s.node first).kind = true → s.Flattened first)
  | branch {first id branch : NodeId} {shape : ObjectShape} (hencloses : s.Encloses first id)
      (hkind : (s.node id).kind = .object shape) (hmem : branch ∈ shape.allOf)
      (htarget : s.dereference branch = .ok first) (htext : text = branchLabel s branch)

variable {s : Schema} {P : NodeId → Prop} {id c : NodeId}

theorem WalksThrough.walks (h : s.WalksThrough P id c) : s.Walks Link.every id c :=
  Relation.ReflTransGen.mono (fun _ _ hstep => hstep.1) _ _ h

/-- One visit leads to the next one: by a link, and then over references. -/
abbrev Enters (s : Schema) (id c : NodeId) : Prop :=
  s.WalksThrough (fun n => (s.node n).kind.isReference = true ∨ n = c) id c

theorem Goes.enters (h : s.Goes Link.every id c) : s.Enters id c :=
  .single ⟨h, .inr rfl⟩

theorem enters_of_dereference {target : NodeId} (h : s.dereference id = .ok target) :
    ((s.node id).kind.isReference = true ∨ id = target) ∧ s.Enters id target := by
  obtain ⟨steps, hleads⟩ := dereference_eq_ok_iff.mp h
  clear h
  induction hleads with
  | here => exact ⟨.inr rfl, .refl⟩
  | @next _ id next _ text hkind _ ih =>
      have hreference : (s.node id).kind.isReference = true := by
        rw [Schema.node, hkind]
        rfl
      have hgoes : s.Goes Link.every id next := (Linked.target hkind).goes (by decide)
      exact ⟨.inl hreference, .head ⟨hgoes, ih.1⟩ ih.2⟩

theorem enters_of_branch {branch target : NodeId} {shape : ObjectShape}
    (hkind : (s.node id).kind = .object shape) (hmem : branch ∈ shape.allOf)
    (htarget : s.dereference branch = .ok target) : s.Enters id target := by
  obtain ⟨hbranch, henters⟩ := enters_of_dereference htarget
  exact .head ⟨(Linked.branch hkind hmem).goes (by decide), hbranch⟩ henters

/-- A walk goes on to the next visit, if references have its property and the node visited has. -/
theorem WalksThrough.enter {start : NodeId} (h : s.WalksThrough P start id)
    (henters : s.Enters id c) (hreference : ∀ n, (s.node n).kind.isReference = true → P n)
    (hc : P c) : s.WalksThrough P start c := by
  refine h.trans (Relation.ReflTransGen.mono ?_ _ _ henters)
  rintro a b ⟨hgoes, hb | rfl⟩
  · exact ⟨hgoes, hreference b hb⟩
  · exact ⟨hgoes, hc⟩

theorem not_isDefinition_of_isReference {kind : Kind} (h : kind.isReference = true) :
    isDefinition kind ≠ true := by
  cases kind <;> simp [Kind.isReference, isDefinition] at h ⊢

theorem ne_definition {n definition : NodeId} (hn : (s.node n).kind.isReference = true)
    (hdefinition : isDefinition (s.node definition).kind = true) : n ≠ definition := by
  rintro rfl
  exact not_isDefinition_of_isReference hn hdefinition

theorem MetAfter.of_reference {first n : NodeId} (h : (s.node n).kind.isReference = true) :
    s.MetAfter first n :=
  fun hdefinition => (not_isDefinition_of_isReference h hdefinition).elim

theorem ReachedAround.enter {avoided : NodeId} (h : s.ReachedAround avoided id)
    (henters : s.Enters id c) (hdefinition : isDefinition (s.node avoided).kind = true)
    (hc : c ≠ avoided) : s.ReachedAround avoided c :=
  ⟨h.1, h.2.enter henters (fun _ hn => ne_definition hn hdefinition) hc⟩

/-- The references from the root lead around every definition but the one at their end. -/
theorem ReachedAround.of_root {root avoided : NodeId} (hroot : s.dereference s.root = .ok root)
    (hdefinition : isDefinition (s.node avoided).kind = true) (hne : root ≠ avoided) :
    s.ReachedAround avoided root := by
  obtain ⟨hstart, henters⟩ := enters_of_dereference hroot
  refine ⟨?_, WalksThrough.enter .refl henters (fun _ hn => ne_definition hn hdefinition) hne⟩
  rcases hstart with hreference | heq
  · exact ne_definition hreference hdefinition
  · rw [heq]
    exact hne

theorem Encloses.enter {first : NodeId} (h : s.Encloses first id) (henters : s.Enters id c)
    (hc : s.MetAfter first c) : s.Encloses first c where
  reached := h.reached
  within := h.within.enter henters (fun _ => .of_reference) hc

/-- A walk from the root leads to what the root reaches. -/
theorem Reached.of_walks {links : List Link} (h : s.Walks links s.root id) : s.Reached id := by
  induction h with
  | refl => exact .root
  | tail _ hgoes ih =>
      obtain ⟨link, -, hlinked⟩ := hgoes
      rcases hlinked.cases with hchild | ⟨-, text, hkind⟩
      · exact ih.part hchild
      · exact ih.target hkind

end Schema

namespace AvroEmission

open Steps Schema EmissionError

variable {s : Schema} {defaultName : String} {budget : Nat} {id c : NodeId} {p p₁ p' : Progress}

/-! ### A conversion that fails -/

/-- No node is marked that was not, and no name is taken back. -/
structure Keeps (p p' : Progress) : Prop where
  active : p'.active ⊆ p.active
  unnamed : ∀ id, p'.named.lookup id = none → p.named.lookup id = none

theorem keeps_enclosed (s : Schema) : Enclosed s Keeps where
  refl p := ⟨List.Subset.refl _, fun _ h => h⟩
  trans p p₁ p' h h' :=
    ⟨List.Subset.trans h'.active h.active, fun id hid => h.unnamed id (h'.unnamed id hid)⟩
  warnDropped _ _ _ := ⟨List.Subset.refl _, fun _ h => h⟩
  define p id base hnew hkind := by
    refine ⟨List.Subset.refl _, fun d hd => ?_⟩
    rw [Progress.define, List.lookup_cons] at hd
    split at hd
    · cases hd
    · exact hd
  around p p' id h := by
    refine ⟨fun m hm => ?_, h.unnamed⟩
    obtain ⟨hm, hne⟩ := List.mem_filter.mp hm
    exact (List.mem_cons.mp (h.active hm)).resolve_left (by simpa using hne)

/-- What holds at the visit of a node. Every node in progress encloses it; a definition in progress
without a name is flattened; and what has no name may be met after each node in progress. -/
structure Held (s : Schema) (p : Progress) (id : NodeId) : Prop where
  current : id ∈ p.active
  encloses : ∀ m ∈ p.active, s.Encloses m id
  flattened : ∀ m ∈ p.active, isDefinition (s.node m).kind = true → p.named.lookup m = none →
    s.Flattened m
  later : ∀ m ∈ p.active, ∀ d, p.named.lookup d = none → s.MetAfter m d

/-- The node that is visited next had no name before or is flattened, and has a name now if it is a
definition, unless it is flattened. -/
theorem Held.enter (h : Held s p id) (hkeeps : Keeps p p') (henters : s.Enters id c)
    (hbefore : p.named.lookup c = none ∨ s.Flattened c)
    (hnow : isDefinition (s.node c).kind = true → p'.named.lookup c = none → s.Flattened c) :
    Held s (p'.enter c) c := by
  have hafter : ∀ m ∈ p.active, s.MetAfter m c := by
    intro m hm
    rcases hbefore with hnew | hflattened
    · exact h.later m hm c hnew
    · exact fun _ => .inl hflattened
  have hreached : s.Walks Link.every s.root c :=
    (h.encloses id h.current).reached.trans (WalksThrough.walks henters)
  refine ⟨List.mem_cons_self, ?_, ?_, ?_⟩
  · refine List.forall_mem_cons.mpr ⟨⟨hreached, .refl⟩, fun m hm => ?_⟩
    have hm := hkeeps.active hm
    exact (h.encloses m hm).enter henters (hafter m hm)
  · refine List.forall_mem_cons.mpr ⟨hnow, fun m hm hdefinition hnew => ?_⟩
    exact h.flattened m (hkeeps.active hm) hdefinition (hkeeps.unnamed m hnew)
  · refine List.forall_mem_cons.mpr ⟨fun d hd hdefinition => ?_, fun m hm d hd => ?_⟩
    · rcases h.later id h.current d (hkeeps.unnamed d hd) hdefinition with hflattened | haround
      · exact .inl hflattened
      · by_cases heq : c = d
        · cases heq
          exact .inl (hnow hdefinition hd)
        · exact .inr (haround.enter henters hdefinition heq)
    · exact h.later m (hkeeps.active hm) d (hkeeps.unnamed d hd)

theorem Held.begins (h : Held s p id) (hkeeps : Keeps p p₁) (hgoes : s.Goes Link.every id c)
    {hint : Option String} {name : String} (hbegins : Begins s defaultName c hint p₁ name p') :
    Held s p' c := by
  cases hbegins with
  | define hnew hkind hdefine =>
      have hdefined := (keeps_enclosed s).define p₁ c (baseName defaultName (s.node c) hint) hnew
        hkind
      rw [hdefine] at hdefined
      have hall := (keeps_enclosed s).trans _ _ _ hkeeps hdefined
      refine h.enter hall hgoes.enters (.inl (hkeeps.unnamed c hnew)) fun _ hnone => ?_
      cases hdefine
      simp at hnone
  | inline hnew hkind =>
      refine h.enter hkeeps hgoes.enters (.inl (hkeeps.unnamed c hnew)) fun hdefinition _ => ?_
      rw [hkind] at hdefinition
      cases hdefinition

theorem Held.branch (h : Held s p id) (hkeeps : Keeps p p₁) {shape : ObjectShape}
    {branch target : NodeId} (hkind : (s.node id).kind = .object shape)
    (hmem : branch ∈ shape.allOf) (htarget : s.dereference branch = .ok target) :
    Held s (p₁.enter target) target := by
  have hflattened : s.Flattened target :=
    ⟨id, shape, branch, (h.encloses id h.current).reached, hkind, hmem, htarget⟩
  exact h.enter hkeeps (enters_of_branch hkind hmem htarget) (.inr hflattened)
    fun _ _ => hflattened

theorem Between.keeps {hint : Option String} {name : String}
    (h : Between s defaultName budget id hint name p p') : Keeps p p' := by
  obtain ⟨hemit, -, hbranch⟩ := (keeps_enclosed s).runs defaultName budget
  exact h.kept (keeps_enclosed s).toChained hemit hbranch

/-- A visit that fails with a cycle comes to a circle without a name. -/
theorem visit_error_cycle (hs : s.Terminates) {hint : Option String} {name text : String}
    (hheld : Held s p id)
    (h : (visit s defaultName budget id hint name).run p = .error (.cycle text)) :
    s.UnnamedCircle text := by
  induction budget using Nat.strong_induction_on generalizing id hint name p with
  | _ budget ih =>
  match budget with
  | 0 => cases h
  | budget + 1 =>
      cases visit_breaks (.cycle text) h with
      | part hbetween hgoes hrun =>
          cases budget with
          | zero => cases hrun
          | succ budget =>
              obtain ⟨name', p', hbegins, hrun⟩ := emit_breaks hrun
              have hheld' := hheld.begins hbetween.keeps (hgoes.mono (by decide)) hbegins
              exact ih budget (by omega) hheld' hrun
      | branch hbetween hkind hmem hrun =>
          cases budget with
          | zero => cases hrun
          | succ budget =>
              cases branch_breaks (.cycle text) hrun with
              | chain hrun =>
                  obtain ⟨target, htarget⟩ := hs.dereference_ok _
                  rw [htarget] at hrun
                  cases hrun
              | visit htarget _ hrun =>
                  have hheld' := hheld.branch hbetween.keeps hkind hmem htarget
                  exact ih budget (by omega) hheld' hrun
              | reentry htarget hactive herror =>
                  cases herror
                  have hencloses := hheld.encloses _ (hbetween.keeps.active hactive)
                  exact .branch hencloses hkind hmem htarget rfl
      | target hkind _ hrun =>
          cases budget with
          | zero => cases hrun
          | succ budget =>
              obtain ⟨name', p', hbegins, hrun⟩ := emit_breaks hrun
              have hheld' := hheld.begins ((keeps_enclosed s).refl p)
                ((Linked.target hkind).goes (by decide)) hbegins
              exact ih budget (by omega) hheld' hrun
      | reentry hkind hactive hnew herror =>
          cases herror
          exact .reference (hheld.encloses _ hactive) hkind
            fun hdefinition => hheld.flattened _ hactive hdefinition hnew

/-- The visit of the root, which is the first one. -/
theorem Held.root {root : NodeId} (hroot : s.dereference s.root = .ok root)
    (hkind : isDefinition (s.node root).kind = true) {hint : Option String} {name : String}
    (hbegins : Begins s defaultName root hint {} name p') : Held s p' root := by
  have hreached : s.Walks Link.every s.root root :=
    WalksThrough.walks (enters_of_dereference hroot).2
  cases hbegins with
  | define _ _ hdefine =>
      cases hdefine
      refine ⟨List.mem_cons_self, ?_, ?_, ?_⟩
      · exact List.forall_mem_singleton.mpr ⟨hreached, .refl⟩
      · refine List.forall_mem_singleton.mpr fun _ hnone => ?_
        simp [Progress.enter] at hnone
      · refine List.forall_mem_singleton.mpr fun d hd hdefinition => .inr ?_
        have hne : root ≠ d := by
          rintro rfl
          simp [Progress.enter] at hd
        exact .of_root hroot hdefinition hne
  | inline _ hinline =>
      rw [hkind] at hinline
      cases hinline

theorem avroSchema_error_cycle (hs : s.Terminates) {settings : AvroSettings} {text : String}
    (h : s.avroSchema settings = .error (.cycle text)) : s.UnnamedCircle text := by
  rcases avroSchema_breaks (.cycle text) h with hchain | ⟨root, shape, hroot, hrun⟩
  · obtain ⟨target, htarget⟩ := hs.dereference_ok s.root
    rw [htarget] at hchain
    cases hchain
  · have hdefinition : isDefinition (s.node root).kind = true := by
      rw [rootObject_ok hroot]
      rfl
    obtain ⟨name, p', hbegins, hrun⟩ := emit_breaks hrun
    exact visit_error_cycle hs (.root (dereference_root hroot) hdefinition hbegins) hrun

end AvroEmission

namespace Schema

open AvroEmission

variable {s : Schema} {named : List (NodeId × String)}

/-! ### A conversion that succeeds -/

mutual
/-- From an object whose fields can be listed no references and branches lead on for ever. -/
theorem Expands.founded : ∀ {id : NodeId} {entries : List (String × NodeId)},
    s.Expands id entries → s.Founded Link.inPlace id
  | _, _, .object hkind hbranches => by
    refine founded_of_ends fun link hlink c hc => ?_
    rw [hkind] at hc
    cases link with
    | branch => exact hbranches.founded c hc
    | target => cases hc
    | _ => simp [Link.inPlace] at hlink

theorem ExpandsAll.founded : ∀ {ids : List NodeId} {entries : List (String × NodeId)},
    s.ExpandsAll ids entries → ∀ c ∈ ids, s.Founded Link.inPlace c
  | _, _, .nil, _, hc => (List.not_mem_nil hc).elim
  | _, _, .untyped htarget hkind hrest, c, hc => by
    rcases List.mem_cons.mp hc with rfl | hc
    · exact Founded.of_dereference htarget
        (founded_of_no_ends hkind (by simp [Link.inPlace, Link.ends]))
    · exact hrest.founded c hc
  | _, _, .object htarget hentries hrest, c, hc => by
    rcases List.mem_cons.mp hc with rfl | hc
    · exact Founded.of_dereference htarget hentries.founded
    · exact hrest.founded c hc
end

end Schema

namespace AvroEmission

open Schema

variable {s : Schema} {named : List (NodeId × String)}

theorem founded_of_isDefinition {id : NodeId} (h : isDefinition (s.node id).kind = true) :
    s.Founded Link.inList id := by
  cases hkind : (s.node id).kind with
  | object => exact founded_of_no_ends hkind (by simp [Link.inList, Link.ends])
  | enumeration => exact founded_of_no_ends hkind (by simp [Link.inList, Link.ends])
  | _ => rw [hkind] at h; cases h

/-- From a node that is rendered no references, items and elements lead on for ever. A rendering is
nested in the list of those of the elements, so the induction says what holds of a list. -/
theorem Renders.founded {id : NodeId} {type : AvroType} (h : Renders s named id type) :
    s.Founded Link.inList id := by
  refine @Renders.rec s named (fun id _ _ => s.Founded Link.inList id)
    (fun id _ _ => s.Founded Link.inList id) (fun id _ _ _ => s.Founded Link.inList id)
    (fun ids _ _ => ∀ c ∈ ids, s.Founded Link.inList c) (fun _ _ _ => True)
    ?intro ?primitive ?union ?array ?tuple ?mention ?definition ?enumeration ?record ?nil ?cons
    trivial (fun _ _ _ _ => trivial) id type h
  case intro => exact fun htarget _ ih => .of_dereference htarget ih
  case primitive =>
    exact fun hkind => founded_of_no_ends hkind (by simp [Link.inList, Link.ends])
  case union => exact fun hkind => founded_of_no_ends hkind (by simp [Link.inList, Link.ends])
  case array =>
    intro id items type hkind _ ih
    refine founded_of_ends fun link _ c hc => ?_
    rw [hkind] at hc
    cases link with
    | item =>
        rw [List.mem_singleton.mp hc]
        exact ih
    | _ => cases hc
  case tuple =>
    intro id ids types items hkind _ _ ih
    refine founded_of_ends fun link _ c hc => ?_
    rw [hkind] at hc
    cases link with
    | element => exact ih c hc
    | _ => cases hc
  case mention => exact fun _ hkind => founded_of_isDefinition hkind
  case definition => exact fun _ _ ih => ih
  case enumeration => exact fun hkind => founded_of_isDefinition (by rw [hkind]; rfl)
  case record =>
    intro id name doc entries fields hentries _ _ _
    cases hentries with
    | object hkind => exact founded_of_isDefinition (by rw [hkind]; rfl)
  case nil => exact fun _ hc => (List.not_mem_nil hc).elim
  case cons => exact fun _ _ ih hrest => List.forall_mem_cons.mpr ⟨ih, hrest⟩

/-- Everything that the root of a rendered schema leads to is founded, both for references and
branches and for references, items and elements. -/
theorem RendersSchema.founded {type : AvroType} (h : RendersSchema s named type) {id : NodeId}
    (hreached : s.Reached id) : s.Founded Link.inPlace id ∧ s.Founded Link.inList id := by
  obtain ⟨target, htarget, haccounted⟩ := hreached.accounted h.goesOn h.endsIn
  have hreference := dereference_not_reference htarget
  suffices hends : s.Founded Link.inPlace target ∧ s.Founded Link.inList target from
    ⟨.of_dereference htarget hends.1, .of_dereference htarget hends.2⟩
  constructor
  · cases hkind : (s.node target).kind with
    | object shape =>
        obtain ⟨entries, hentries, -⟩ := haccounted.declares h.goesOn hkind
        exact hentries.founded
    | reference => rw [hkind] at hreference; cases hreference
    | _ => exact founded_of_no_ends hkind (by simp [Link.inPlace, Link.ends])
  · cases haccounted with
    | rendered hrendered =>
        obtain ⟨type, hrenders⟩ := hrendered
        exact Renders.founded (.intro (dereference_self hreference) hrenders)
    | untyped hkind => exact founded_of_no_ends hkind (by simp [Link.inList, Link.ends])
    | declared hdeclared =>
        obtain ⟨entries, hentries, -⟩ := hdeclared
        cases hentries with
        | object hkind => exact founded_of_isDefinition (by rw [hkind]; rfl)

end AvroEmission

namespace Schema

open AvroEmission

variable {s : Schema}

/-- A conversion to Avro fails with a cycle only where the root leads to a circle that no name
breaks, and it does not succeed, if the root leads to a circle of references and branches, or of
references, items and elements. -/
theorem read_avroSchema_circles {document : Json} (hdistinct : document.DistinctKeys)
    (hread : Schema.read document = .ok s) (settings : AvroSettings) :
    (∀ text, s.avroSchema settings = .error (.cycle text) → s.UnnamedCircle text) ∧
      ∀ id, s.Walks Link.every s.root id →
        s.OnCycle Link.inPlace id ∨ s.OnCycle Link.inList id →
        ∀ a, s.avroSchema settings ≠ .ok a := by
  have hs := read_terminates hdistinct hread
  refine ⟨fun text h => avroSchema_error_cycle hs h, fun id hwalks hcircle a hok => ?_⟩
  obtain ⟨named, hrenders⟩ := avroSchema_renders hok
  obtain ⟨hinPlace, hinList⟩ := hrenders.founded (.of_walks hwalks)
  rcases hcircle with hcircle | hcircle
  · exact hinPlace.not_onCycle hcircle
  · exact hinList.not_onCycle hcircle

/-- A drive and each folder in it keep their folders in a list of one sort. -/
def driveDocument : Json :=
  .object [("title", .string "Drive"),
    ("properties", .object [("folders", .object [("$ref", .string "#/definitions/folders")])]),
    ("definitions", .object [("folders", .object [("type", .string "array"),
      ("items", .object [("title", .string "Folder"), ("properties", .object [("folders",
        .object [("$ref", .string "#/definitions/folders")])])])])])]

def driveSchema : Schema where
  nodes := #[{ kind := .reference "#/definitions/folders" (some 4) },
    { title := some "Drive", kind := .object { properties := [("folders", 0)] } },
    { kind := .reference "#/definitions/folders" (some 4) },
    { title := some "Folder", kind := .object { properties := [("folders", 2)] } },
    { kind := .array 3 }]
  root := 1

/-- The rows of a table are lists of rows, and nothing else. -/
def rowsDocument : Json :=
  .object [("properties", .object [("rows", .object [("$ref", .string "#/definitions/rows")])]),
    ("definitions", .object [("rows", .object [("type", .string "array"),
      ("items", .object [("$ref", .string "#/definitions/rows")])])])]

def rowsSchema : Schema where
  nodes := #[{ kind := .reference "#/definitions/rows" (some 3) },
    { kind := .object { properties := [("rows", 0)] } },
    { kind := .reference "#/definitions/rows" (some 3) }, { kind := .array 2 }]
  root := 1

/-- A person has what a contact has, and a contact has a list of persons. -/
def personDocument : Json :=
  .object [("title", .string "Person"),
    ("allOf", .array [.object [("$ref", .string "#/definitions/contact")]]),
    ("definitions", .object [("contact", .object [("properties", .object [("friends",
      .object [("type", .string "array"), ("items", .object [("$ref", .string "#")])])])])])]

def personSchema : Schema where
  nodes := #[{ kind := .reference "#/definitions/contact" (some 4) },
    { title := some "Person", kind := .object { allOf := [0] } },
    { kind := .reference "#" (some 1) }, { kind := .array 2 },
    { kind := .object { properties := [("friends", 3)] } }]
  root := 1

theorem read_driveDocument : read driveDocument = .ok driveSchema := by
  cbv

theorem read_rowsDocument : read rowsDocument = .ok rowsSchema := by
  cbv

theorem read_personDocument : read personDocument = .ok personSchema := by
  cbv

unseal Arena.chase in
theorem avroSchema_driveSchema :
    driveSchema.avroSchema {} = .error (.cycle "#/definitions/folders") := by
  rfl

theorem onCycle_rowsSchema : rowsSchema.OnCycle Link.inList 3 := by
  have hitem : rowsSchema.Goes Link.inList 3 2 := (Linked.item rfl).goes (by decide)
  have hback : rowsSchema.Goes Link.inList 2 3 := (Linked.target rfl).goes (by decide)
  exact (Relation.TransGen.single hitem).tail hback

/-- Within a contact there is no way back to it but through a person, whom the root leads to before
the contact. -/
theorem not_unnamedCircle_personSchema (text : String) : ¬personSchema.UnnamedCircle text := by
  have hbranch : ∀ id c, personSchema.Linked .branch id c → id = 1 ∧ c = 0 := by
    intro id c h
    have hall : ∀ id < 5, ∀ c ∈ Link.branch.ends (personSchema.node id).kind, id = 1 ∧ c = 0 := by
      decide
    exact hall id h.lt_size c h.mem_ends
  have htarget : ∀ id c, personSchema.Linked .target id c → id = 0 ∧ c = 4 ∨ id = 2 ∧ c = 1 := by
    intro id c h
    have hall : ∀ id < 5, ∀ c ∈ Link.target.ends (personSchema.node id).kind,
        id = 0 ∧ c = 4 ∨ id = 2 ∧ c = 1 := by
      decide
    exact hall id h.lt_size c h.mem_ends
  have hdereference : personSchema.dereference 0 = .ok 4 := by cbv
  have hflattened : ¬personSchema.Flattened 1 := by
    rintro ⟨owner, shape, branch, -, hkind, hmem, h⟩
    obtain ⟨-, rfl⟩ := hbranch owner branch (.branch hkind hmem)
    rw [hdereference] at h
    cases h
  have haround : ¬personSchema.ReachedAround 1 4 := fun h => h.1 rfl
  have hwithin : ∀ id, personSchema.WalksThrough (personSchema.MetAfter 4) 4 id →
      id ∈ [4, 3, 2] := by
    intro id h
    induction h with
    | refl => decide
    | @tail id c _ hstep ih =>
        obtain ⟨⟨link, hlink, hlinked⟩, hafter⟩ := hstep
        have hall : ∀ id ∈ [4, 3, 2], ∀ link ∈ Link.every,
            ∀ c ∈ link.ends (personSchema.node id).kind, c ∈ [4, 3, 2] ∨ c = 1 := by
          decide
        rcases hall id ih link hlink c hlinked.mem_ends with hmem | rfl
        · exact hmem
        · exact ((hafter rfl).elim hflattened haround).elim
  intro hcircle
  cases hcircle with
  | reference hencloses hkind hnone =>
      rcases htarget _ _ (.target hkind) with ⟨rfl, rfl⟩ | ⟨rfl, rfl⟩
      · exact absurd (hwithin 0 hencloses.within) (by decide)
      · exact hflattened (hnone rfl)
  | branch hencloses hkind hmem hfirst =>
      obtain ⟨rfl, rfl⟩ := hbranch _ _ (.branch hkind hmem)
      rw [hdereference] at hfirst
      cases hfirst
      exact absurd (hwithin 1 hencloses.within) (by decide)

theorem read_avroSchema_circles_drive :
    driveSchema.UnnamedCircle "#/definitions/folders" ∧
      (∀ settings a, rowsSchema.avroSchema settings ≠ .ok a) ∧
      ∀ settings text, personSchema.avroSchema settings ≠ .error (.cycle text) := by
  refine ⟨?_, fun settings => ?_, fun settings text h => ?_⟩
  · exact (read_avroSchema_circles (by decide) read_driveDocument {}).1 _ avroSchema_driveSchema
  · have hcircles := (read_avroSchema_circles (by decide) read_rowsDocument settings).2
    have hproperty : rowsSchema.Goes Link.every 1 0 :=
      (Linked.property rfl (List.mem_singleton_self _)).goes (by decide)
    have htarget : rowsSchema.Goes Link.every 0 3 := (Linked.target rfl).goes (by decide)
    exact hcircles 3 (.tail (.single hproperty) htarget) (.inr onCycle_rowsSchema)
  · have hcircles := (read_avroSchema_circles (by decide) read_personDocument settings).1
    exact not_unnamedCircle_personSchema text (hcircles text h)

/-- An employee has what a person has, and a person knows another one. -/
def employeeDocument : Json :=
  .object [("title", .string "Employee"),
    ("allOf", .array [.object [("$ref", .string "#/definitions/person")]]),
    ("definitions", .object [("person", .object [("properties",
      .object [("boss", .object [("$ref", .string "#/definitions/person")])])])])]

def employeeSchema : Schema where
  nodes := #[{ kind := .reference "#/definitions/person" (some 3) },
    { title := some "Employee", kind := .object { allOf := [0] } },
    { kind := .reference "#/definitions/person" (some 3) },
    { kind := .object { properties := [("boss", 2)] } }]
  root := 1

/-- A manager has an assistant, who has what a manager has. -/
def managerDocument : Json :=
  .object [("title", .string "Manager"),
    ("properties", .object [("assistant", .object [("$ref", .string "#/definitions/assistant")])]),
    ("definitions", .object [("assistant", .object [("allOf",
      .array [.object [("$ref", .string "#")]])])])]

def managerSchema : Schema where
  nodes := #[{ kind := .reference "#/definitions/assistant" (some 3) },
    { title := some "Manager", kind := .object { properties := [("assistant", 0)] } },
    { kind := .reference "#" (some 1) }, { kind := .object { allOf := [2] } }]
  root := 1

theorem read_employeeDocument : read employeeDocument = .ok employeeSchema := by
  cbv

theorem read_managerDocument : read managerDocument = .ok managerSchema := by
  cbv

unseal Arena.chase in
theorem avroSchema_employeeSchema :
    employeeSchema.avroSchema {} = .error (.cycle "#/definitions/person") := by
  rfl

unseal Arena.chase in
theorem avroSchema_managerSchema : managerSchema.avroSchema {} = .error (.cycle "#") := by
  rfl

/-- A conversion to Avro can fail with a cycle though every circle passes through a property of a
record. The folders lead back to their list, which has no name; the boss leads back to a person that
is flattened into the employee; and the assistant has the manager, which is in progress, for a
branch. -/
theorem avroSchema_cycle_through_records :
    (read driveDocument = .ok driveSchema ∧
      driveSchema.avroSchema {} = .error (.cycle "#/definitions/folders") ∧
      ∀ id, ¬driveSchema.OnCycle Link.inPlace id ∧ ¬driveSchema.OnCycle Link.inList id) ∧
    (read employeeDocument = .ok employeeSchema ∧
      employeeSchema.avroSchema {} = .error (.cycle "#/definitions/person") ∧
      ∀ id, ¬employeeSchema.OnCycle Link.inPlace id ∧ ¬employeeSchema.OnCycle Link.inList id) ∧
    (read managerDocument = .ok managerSchema ∧
      managerSchema.avroSchema {} = .error (.cycle "#") ∧
      ∀ id, ¬managerSchema.OnCycle Link.inPlace id ∧ ¬managerSchema.OnCycle Link.inList id) := by
  refine ⟨⟨read_driveDocument, avroSchema_driveSchema, fun id => ⟨?_, ?_⟩⟩,
    ⟨read_employeeDocument, avroSchema_employeeSchema, fun id => ⟨?_, ?_⟩⟩,
    read_managerDocument, avroSchema_managerSchema, fun id => ⟨?_, ?_⟩⟩
  · exact not_onCycle_of_ranks (fun id => [2, 0, 2, 0, 1].getD id 0) (by decide) id
  · exact not_onCycle_of_ranks (fun id => [2, 0, 2, 0, 1].getD id 0) (by decide) id
  · exact not_onCycle_of_ranks (fun id => [1, 2, 1, 0].getD id 0) (by decide) id
  · exact not_onCycle_of_ranks (fun id => [1, 2, 1, 0].getD id 0) (by decide) id
  · exact not_onCycle_of_ranks (fun id => [3, 0, 1, 2].getD id 0) (by decide) id
  · exact not_onCycle_of_ranks (fun id => [3, 0, 1, 2].getD id 0) (by decide) id

end Schema

end SchemaBridge
