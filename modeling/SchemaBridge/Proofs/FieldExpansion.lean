import Mathlib.Data.List.Forall2
import SchemaBridge.Proofs.FieldShapes

/-!
The fields that an object declares: its properties in declaration order without those that lead to
an untyped node, followed by the fields of the nodes that its branches lead to. The fields of a
record or a group are these, one by one, if each has the name of its declaration and renders the
node that is declared under it. Main statement: if a rendering goes on through all that it meets,
then every object that the root leads to declares no name twice.
-/

namespace SchemaBridge

/-- Whether a node demands nothing. -/
def Kind.isUntyped : Kind → Bool
  | untyped => true
  | _ => false

theorem Kind.isUntyped_iff {kind : Kind} : kind.isUntyped = true ↔ kind = .untyped := by
  cases kind <;> simp [isUntyped]

namespace Schema

/-- Whether the references from a node end at an untyped one. -/
def leadsToUntyped (s : Schema) (id : NodeId) : Bool :=
  match s.dereference id with
  | .ok target => (s.node target).kind.isUntyped
  | .error _ => false

theorem leadsToUntyped_eq {s : Schema} {id target : NodeId} (h : s.dereference id = .ok target) :
    s.leadsToUntyped id = (s.node target).kind.isUntyped := by
  rw [leadsToUntyped, h]

/-- The properties that do not lead to an untyped node. -/
def typedProperties (s : Schema) (properties : List (String × NodeId)) : List (String × NodeId) :=
  properties.filter fun property => !s.leadsToUntyped property.2

mutual
/-- The fields that an object declares, each with its node. -/
inductive Expands (s : Schema) : NodeId → List (String × NodeId) → Prop
  | object {id : NodeId} {shape : ObjectShape} {inherited : List (String × NodeId)}
      (hkind : (s.node id).kind = .object shape) (hbranches : ExpandsAll s shape.allOf inherited) :
      Expands s id (s.typedProperties shape.properties ++ inherited)

/-- The fields that branches declare, one branch after the other. An untyped one declares none. -/
inductive ExpandsAll (s : Schema) : List NodeId → List (String × NodeId) → Prop
  | nil : ExpandsAll s [] []
  | untyped {branch target : NodeId} {rest : List NodeId} {later : List (String × NodeId)}
      (htarget : s.dereference branch = .ok target) (hkind : (s.node target).kind = .untyped)
      (hrest : ExpandsAll s rest later) : ExpandsAll s (branch :: rest) later
  | object {branch target : NodeId} {rest : List NodeId} {entries later : List (String × NodeId)}
      (htarget : s.dereference branch = .ok target) (hentries : Expands s target entries)
      (hrest : ExpandsAll s rest later) : ExpandsAll s (branch :: rest) (entries ++ later)
end

variable {s : Schema}

mutual
/-- An object declares one list of fields. -/
theorem Expands.unique : ∀ {id : NodeId} {entries entries' : List (String × NodeId)},
    s.Expands id entries → s.Expands id entries' → entries = entries'
  | _, _, _, .object hkind hbranches, .object hkind' hbranches' => by
    rw [hkind] at hkind'
    cases hkind'
    rw [hbranches.unique hbranches']

theorem ExpandsAll.unique : ∀ {ids : List NodeId} {entries entries' : List (String × NodeId)},
    s.ExpandsAll ids entries → s.ExpandsAll ids entries' → entries = entries'
  | _, _, _, .nil, .nil => rfl
  | _, _, _, .untyped htarget hkind hrest, h => by
    cases h with
    | untyped _ _ hrest' => exact hrest.unique hrest'
    | object htarget' hentries' =>
        rw [htarget] at htarget'
        cases htarget'
        cases hentries' with
        | object hkind' => rw [hkind] at hkind'; cases hkind'
  | _, _, _, .object htarget hentries hrest, h => by
    cases h with
    | untyped htarget' hkind' =>
        rw [htarget] at htarget'
        cases htarget'
        cases hentries with
        | object hkind => rw [hkind'] at hkind; cases hkind
    | object htarget' hentries' hrest' =>
        rw [htarget] at htarget'
        cases htarget'
        rw [hentries.unique hentries', hrest.unique hrest']
end

theorem ExpandsAll.append {ids later : List NodeId} {entries more : List (String × NodeId)}
    (h : s.ExpandsAll ids entries) (hmore : s.ExpandsAll later more) :
    s.ExpandsAll (ids ++ later) (entries ++ more) := by
  induction ids generalizing entries with
  | nil =>
      cases h
      exact hmore
  | cons id rest ih =>
      cases h with
      | untyped htarget hkind hrest => exact .untyped htarget hkind (ih hrest)
      | object htarget hentries hrest =>
          rw [List.append_assoc]
          exact .object htarget hentries (ih hrest)

theorem ExpandsAll.single {branch target : NodeId} {entries : List (String × NodeId)}
    (htarget : s.dereference branch = .ok target) (hentries : s.Expands target entries) :
    s.ExpandsAll [branch] entries := by
  rw [← List.append_nil entries]
  exact .object htarget hentries .nil

/-! ### Fields that render what is declared -/

/-- The list has a field for each entry, in order: one that has its name and renders its node. -/
inductive Matches {α : Type} (name : α → String) (R : NodeId → α → Prop) :
    List (String × NodeId) → List α → Prop
  | nil : Matches name R [] []
  | cons {id : NodeId} {field : α} {entries : List (String × NodeId)} {fields : List α}
      (hfield : R id field) (hrest : Matches name R entries fields) :
      Matches name R ((name field, id) :: entries) (field :: fields)

/-- The fields are the ones that the object declares, no two of one name. -/
inductive FieldsOf (s : Schema) {α : Type} (name : α → String) (R : NodeId → α → Prop) :
    NodeId → List α → Prop
  | intro {id : NodeId} {entries : List (String × NodeId)} {fields : List α}
      (hentries : s.Expands id entries) (hfields : Matches name R entries fields)
      (hnames : (fields.map name).Nodup) : FieldsOf s name R id fields

/-- What is found for a node: nothing if it leads to an untyped one, and else what renders it. -/
inductive Finds (s : Schema) {α : Type} (R : NodeId → α → Prop) (id : NodeId) : Option α → Prop
  | untyped {target : NodeId} (htarget : s.dereference id = .ok target)
      (hkind : (s.node target).kind = .untyped) : Finds s R id none
  | typed {target : NodeId} {x : α} (htarget : s.dereference id = .ok target)
      (hkind : (s.node target).kind ≠ .untyped) (h : R id x) : Finds s R id (some x)

section

variable {α : Type} {name : α → String} {R : NodeId → α → Prop}

theorem Matches.names {entries : List (String × NodeId)} {fields : List α}
    (h : Matches name R entries fields) : fields.map name = entries.map Prod.fst := by
  induction h with
  | nil => rfl
  | cons _ _ ih => rw [List.map_cons, List.map_cons, ih]

theorem Matches.append {entries later : List (String × NodeId)} {fields more : List α}
    (h : Matches name R entries fields) (hmore : Matches name R later more) :
    Matches name R (entries ++ later) (fields ++ more) := by
  induction h with
  | nil => exact hmore
  | cons hfield _ ih => exact .cons hfield ih

theorem Matches.exists_of_mem {entries : List (String × NodeId)} {fields : List α}
    (h : Matches name R entries fields) {entry : String × NodeId} (hmem : entry ∈ entries) :
    ∃ field, R entry.2 field := by
  induction h with
  | nil => cases hmem
  | cons hfield _ ih =>
      rcases List.mem_cons.mp hmem with rfl | hmem
      · exact ⟨_, hfield⟩
      · exact ih hmem

/-- The names of the fields are those that the object declares. -/
theorem FieldsOf.names {id : NodeId} {fields : List α} (h : s.FieldsOf name R id fields) :
    ∃ entries, s.Expands id entries ∧ fields.map name = entries.map Prod.fst ∧
      (fields.map name).Nodup := by
  cases h with
  | intro hentries hfields hnames => exact ⟨_, hentries, hfields.names, hnames⟩

theorem Finds.of_reference {R' : NodeId → α → Prop} {id next : NodeId} {text : String}
    {result : Option α} (hkind : (s.node id).kind = .reference text (some next))
    (hR : ∀ x, R next x → R' id x) (h : s.Finds R next result) : s.Finds R' id result := by
  cases h with
  | untyped htarget huntyped => exact .untyped (dereference_reference hkind htarget) huntyped
  | typed htarget huntyped h => exact .typed (dereference_reference hkind htarget) huntyped (hR _ h)

theorem Finds.leadsToUntyped {id : NodeId} {result : Option α} (h : s.Finds R id result) :
    s.leadsToUntyped id = result.isNone := by
  cases h with
  | untyped htarget hkind => rw [leadsToUntyped_eq htarget, hkind]; rfl
  | typed htarget hkind =>
      rw [leadsToUntyped_eq htarget, Option.isNone_some, ← Bool.not_eq_true, Kind.isUntyped_iff]
      exact hkind

end

/-! ### Objects that are rendered -/

/-- The references from a node end at one of the nodes. -/
def EndsIn (s : Schema) (P : NodeId → Prop) (id : NodeId) : Prop :=
  ∃ target, s.dereference id = .ok target ∧ P target

/-- The object declares no name twice, and its fields lead to nodes that are rendered. -/
def RendersFields (s : Schema) (P : NodeId → Prop) (id : NodeId) : Prop :=
  ∃ entries, s.Expands id entries ∧ (entries.map Prod.fst).Nodup ∧
    ∀ entry ∈ entries, s.EndsIn P entry.2

/-- What is rendered goes on to what it consists of: the fields that an object declares, and the
elements of an array or a tuple. -/
structure GoesOn (s : Schema) (P : NodeId → Prop) : Prop where
  object : ∀ id shape, P id → (s.node id).kind = .object shape → s.RendersFields P id
  array : ∀ id items, P id → (s.node id).kind = .array items → s.EndsIn P items
  tuple : ∀ id ids, P id → (s.node id).kind = .tuple ids → ∀ element ∈ ids, s.EndsIn P element

/-- A node that a rendering accounts for: it is rendered, or it is untyped and left out, or it is an
object whose fields are rendered as those of another one. -/
inductive Accounted (s : Schema) (P : NodeId → Prop) (id : NodeId) : Prop
  | rendered (h : P id)
  | untyped (hkind : (s.node id).kind = .untyped)
  | declared (h : s.RendersFields P id)

variable {P : NodeId → Prop}

theorem EndsIn.imp {Q : NodeId → Prop} (hPQ : ∀ id, P id → Q id) {id : NodeId}
    (h : s.EndsIn P id) : s.EndsIn Q id := by
  obtain ⟨target, htarget, hP⟩ := h
  exact ⟨target, htarget, hPQ target hP⟩

theorem EndsIn.of_reference {id next : NodeId} {text : String}
    (hkind : (s.node id).kind = .reference text (some next)) (h : s.EndsIn P id) :
    s.EndsIn P next := by
  obtain ⟨target, htarget, hP⟩ := h
  obtain ⟨steps, hleads⟩ := dereference_eq_ok_iff.mp htarget
  cases hleads with
  | here hnone =>
      rw [Schema.node] at hkind
      rw [hkind] at hnone
      cases hnone
  | next hkind' hrest =>
      rw [Schema.node] at hkind
      rw [hkind] at hkind'
      cases hkind'
      exact ⟨target, dereference_eq_ok_iff.mpr ⟨_, hrest⟩, hP⟩

theorem EndsIn.self {id : NodeId} (hkind : (s.node id).kind.isReference = false)
    (h : s.EndsIn P id) : P id := by
  obtain ⟨target, htarget, hP⟩ := h
  rw [dereference_self hkind] at htarget
  cases htarget
  exact hP

/-- The fields that one of the branches declares are among those of all of them, in order. -/
theorem ExpandsAll.branch {ids : List NodeId} {entries : List (String × NodeId)}
    (h : s.ExpandsAll ids entries) {branch : NodeId} (hmem : branch ∈ ids) :
    ∃ target, s.dereference branch = .ok target ∧ ((s.node target).kind = .untyped ∨
      ∃ own, s.Expands target own ∧ own.Sublist entries) := by
  induction ids generalizing entries with
  | nil => cases hmem
  | cons first rest ih =>
      cases h with
      | untyped htarget hkind hrest =>
          rcases List.mem_cons.mp hmem with rfl | hmem
          · exact ⟨_, htarget, .inl hkind⟩
          · exact ih hrest hmem
      | object htarget hentries hrest =>
          rcases List.mem_cons.mp hmem with rfl | hmem
          · exact ⟨_, htarget, .inr ⟨_, hentries, List.sublist_append_left _ _⟩⟩
          · obtain ⟨target, htarget', hown⟩ := ih hrest hmem
            refine ⟨target, htarget', hown.imp_right fun ⟨own, hexpands, hsublist⟩ => ?_⟩
            exact ⟨own, hexpands, hsublist.trans (List.sublist_append_right _ _)⟩

/-- The parts of an object are accounted for if its fields are rendered. -/
theorem RendersFields.part {id : NodeId} {shape : ObjectShape} (h : s.RendersFields P id)
    (hkind : (s.node id).kind = .object shape) {c : NodeId} (hchild : c ∈ shape.children) :
    s.EndsIn (s.Accounted P) c := by
  obtain ⟨entries, hentries, hnames, hrendered⟩ := h
  cases hentries with
  | @object _ shape' inherited hkind' hbranches =>
      rw [hkind] at hkind'
      cases hkind'
      rcases List.mem_append.mp hchild with hproperty | hbranch
      · obtain ⟨property, hmem, rfl⟩ := List.mem_map.mp hproperty
        cases huntyped : s.leadsToUntyped property.2 with
        | true =>
            unfold leadsToUntyped at huntyped
            split at huntyped
            · rename_i target htarget
              exact ⟨target, htarget, .untyped (Kind.isUntyped_iff.mp huntyped)⟩
            · cases huntyped
        | false =>
            have htyped : property ∈ s.typedProperties shape.properties :=
              List.mem_filter.mpr ⟨hmem, by rw [huntyped]; rfl⟩
            exact (hrendered property (List.mem_append_left _ htyped)).imp fun _ => .rendered
      · -- What a branch declares is part of what the object declares, so it repeats no name either.
        obtain ⟨target, htarget, huntyped | ⟨own, hown, hsublist⟩⟩ := hbranches.branch hbranch
        · exact ⟨target, htarget, .untyped huntyped⟩
        · have hwithin := hsublist.trans (List.sublist_append_right
            (s.typedProperties shape.properties) inherited)
          refine ⟨target, htarget, .declared ⟨own, hown, hnames.sublist (hwithin.map _), ?_⟩⟩
          exact fun entry hentry => hrendered entry (hwithin.subset hentry)

theorem Accounted.declares (hP : s.GoesOn P) {id : NodeId} {shape : ObjectShape}
    (h : s.Accounted P id) (hkind : (s.node id).kind = .object shape) : s.RendersFields P id := by
  cases h with
  | rendered h => exact hP.object id shape h hkind
  | untyped hkind' => rw [hkind'] at hkind; cases hkind
  | declared h => exact h

/-- A node that is accounted for is rendered, unless it is untyped or an object. -/
theorem Accounted.rendered_of {id : NodeId} (h : s.Accounted P id)
    (hobject : ∀ shape, (s.node id).kind ≠ .object shape) (htyped : (s.node id).kind ≠ .untyped) :
    P id := by
  cases h with
  | rendered h => exact h
  | untyped hkind => exact (htyped hkind).elim
  | declared h =>
      obtain ⟨entries, hentries, -⟩ := h
      cases hentries with
      | object hkind => exact (hobject _ hkind).elim

theorem Accounted.part (hP : s.GoesOn P) {id c : NodeId} (h : s.Accounted P id)
    (hchild : c ∈ (s.node id).kind.children) : s.EndsIn (s.Accounted P) c := by
  cases hkind : (s.node id).kind with
  | object shape =>
      rw [hkind] at hchild
      exact (h.declares hP hkind).part hkind hchild
  | array items =>
      rw [hkind] at hchild
      cases List.mem_singleton.mp hchild
      have hrendered := h.rendered_of (by simp [hkind]) (by simp [hkind])
      exact (hP.array id _ hrendered hkind).imp fun _ => .rendered
  | tuple ids =>
      rw [hkind] at hchild
      have hrendered := h.rendered_of (by simp [hkind]) (by simp [hkind])
      exact (hP.tuple id ids hrendered hkind c hchild).imp fun _ => .rendered
  | _ =>
      rw [hkind] at hchild
      cases hchild

/-- A rendering of the root accounts for everything that the root leads to. -/
theorem Reached.accounted (hP : s.GoesOn P) (hroot : s.EndsIn P s.root) {id : NodeId}
    (h : s.Reached id) : s.EndsIn (s.Accounted P) id := by
  induction h with
  | root => exact hroot.imp fun _ => .rendered
  | @part id c _ hchild ih =>
      have hself : (s.node id).kind.isReference = false := by
        cases hkind : (s.node id).kind with
        | reference => rw [hkind] at hchild; cases hchild
        | _ => rfl
      exact (ih.self hself).part hP hchild
  | target _ hkind ih => exact ih.of_reference hkind

/-- If the root is rendered, then no object that it leads to declares a name twice. -/
theorem Reached.names_nodup (hP : s.GoesOn P) (hroot : s.EndsIn P s.root) {id : NodeId}
    {entries : List (String × NodeId)} (h : s.Reached id) (hentries : s.Expands id entries) :
    (entries.map Prod.fst).Nodup := by
  have hkind := hentries
  cases hkind with
  | object hkind =>
      have haccounted := (h.accounted hP hroot).self (by rw [hkind]; rfl)
      obtain ⟨entries', hentries', hnames, -⟩ := haccounted.declares hP hkind
      rwa [hentries.unique hentries']

end Schema

end SchemaBridge
