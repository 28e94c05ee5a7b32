import SchemaBridge.Proofs.KeywordPrecedence
import SchemaBridge.SchemaReading

/-!
Reading as a relation. The parts of a schema object are read in the order in which they stand, each
from the draft that the one before it left, and the object gets its number after its parts. Main
statement: whatever the reader returns is derived by these rules, so that what holds of a derivation
holds of every reading that succeeds.
-/

namespace SchemaBridge

/-- A part of a schema object: the schema at a pointer, or a node that no pointer leads to. -/
inductive Part where
  | located (pointer : String) (value : Json)
  | bare

def Part.pointer? : Part → Option String
  | located pointer _ => some pointer
  | bare => none

/-- The parts that members are, each at its name. -/
def memberParts (base : String) (named : Members) : List Part :=
  named.map fun m => .located (Pointer.child base m.1) m.2

/-- The parts that list elements are, each at its index. The first has the given index. -/
def elementParts (base : String) : Nat → List Json → List Part
  | _, [] => []
  | index, value :: rest =>
    .located (Pointer.element base index) value :: elementParts base (index + 1) rest

namespace Keyword

/-- The members that a keyword holds. An absent keyword holds none. -/
def HoldsMembers (members : Members) (keyword : String) (named : Members) : Prop :=
  members.lookup keyword = some (.object named) ∨ members.lookup keyword = none ∧ named = []

/-- The list that a keyword holds. An absent keyword holds the empty one. -/
def HoldsList (members : Members) (keyword : String) (values : List Json) : Prop :=
  members.lookup keyword = some (.array values) ∨ members.lookup keyword = none ∧ values = []

section

variable {members named named' : Members} {keyword : String} {value : Json}
  {values values' : List Json}

theorem HoldsMembers.lookup (h : HoldsMembers members keyword named) {m : String × Json}
    (hm : m ∈ named) : members.lookup keyword = some (.object named) := by
  rcases h with h | ⟨-, rfl⟩
  · exact h
  · cases hm

theorem HoldsMembers.value_eq (h : HoldsMembers members keyword named)
    (hvalue : members.lookup keyword = some value) : value = .object named := by
  rcases h with h | ⟨hnone, -⟩
  · rw [h] at hvalue
    exact (Option.some.inj hvalue).symm
  · rw [hnone] at hvalue
    cases hvalue

theorem HoldsMembers.eq (h : HoldsMembers members keyword named)
    (hnamed : members.lookup keyword = some (.object named')) : named' = named :=
  Json.object.inj (h.value_eq hnamed)

theorem HoldsMembers.unique (h : HoldsMembers members keyword named)
    (h' : HoldsMembers members keyword named') : named' = named := by
  rcases h' with hnamed | ⟨hnone, rfl⟩
  · exact h.eq hnamed
  · rcases h with h | ⟨-, rfl⟩
    · rw [hnone] at h
      cases h
    · rfl

theorem HoldsList.lookup (h : HoldsList members keyword values) {index : Nat}
    (hindex : index < values.length) : members.lookup keyword = some (.array values) := by
  rcases h with h | ⟨-, rfl⟩
  · exact h
  · cases hindex

theorem HoldsList.value_eq (h : HoldsList members keyword values)
    (hvalue : members.lookup keyword = some value) : value = .array values := by
  rcases h with h | ⟨hnone, -⟩
  · rw [h] at hvalue
    exact (Option.some.inj hvalue).symm
  · rw [hnone] at hvalue
    cases hvalue

theorem HoldsList.eq (h : HoldsList members keyword values)
    (hvalues : members.lookup keyword = some (.array values')) : values' = values :=
  Json.array.inj (h.value_eq hvalues)

end

end Keyword

/-- The parts that an outline asks for, and the kind that their numbers make of it. -/
inductive Assembles (members : Members) (pointer : String) :
    Outline → List Part → List NodeId → Kind → Prop
  | leaf (kind : Kind) : Assembles members pointer (.leaf kind) [] [] kind
  | object {named : Members} {values : List Json} {ids branchIds : List NodeId}
      {required : List String}
      (hnamed : Keyword.HoldsMembers members "properties" named)
      (hvalues : Keyword.HoldsList members "allOf" values)
      (hids : ids.length = named.length)
      (hrequired : Reader.required members pointer ((named.map Prod.fst).zip ids) = .ok required) :
      Assembles members pointer .object
        (memberParts (Pointer.child pointer "properties") named ++
          elementParts (Pointer.child pointer "allOf") 0 values)
        (ids ++ branchIds)
        (.object { properties := (named.map Prod.fst).zip ids, required, allOf := branchIds })
  | bareArray {id : NodeId} (hitems : members.lookup "items" = none) :
      Assembles members pointer .array [.bare] [id] (.array id)
  | tuple {values : List Json} {ids : List NodeId}
      (hitems : members.lookup "items" = some (.array values)) :
      Assembles members pointer .array (elementParts (Pointer.child pointer "items") 0 values) ids
        (.tuple ids)
  | array {items : Json} {id : NodeId} (hitems : members.lookup "items" = some items)
      (hlist : ∀ values, items ≠ .array values) :
      Assembles members pointer .array [.located (Pointer.child pointer "items") items] [id]
        (.array id)

/-- Reading a list of parts from one draft to another gives them these numbers. -/
inductive Reads (document : Json) : List Part → Draft → List NodeId → Draft → Prop
  | nil (d : Draft) : Reads document [] d [] d
  | bare {d d' : Draft} {rest : List Part} {ids : List NodeId}
      (hrest : Reads document rest (d.push { kind := .untyped }).2 ids d') :
      Reads document (.bare :: rest) d (d.nodes.size :: ids) d'
  | any {d d' : Draft} {pointer : String} {rest : List Part} {ids : List NodeId}
      (hrest : Reads document rest (d.place pointer { kind := .untyped }).2 ids d') :
      Reads document (.located pointer (.bool true) :: rest) d (d.nodes.size :: ids) d'
  | object {d d₁ d' : Draft} {pointer : String} {members : Members}
      {title description : Option String} {outline : Outline} {parts rest : List Part}
      {partIds ids : List NodeId} {kind : Kind}
      (htitle : Keyword.text? members "title" pointer = .ok title)
      (hdescription : Keyword.text? members "description" pointer = .ok description)
      (houtline : Outline.read document members pointer = .ok outline)
      (hkind : Assembles members pointer outline parts partIds kind)
      (hparts : Reads document parts d partIds d₁)
      (hrest : Reads document rest (d₁.place pointer { title, description, kind }).2 ids d') :
      Reads document (.located pointer (.object members) :: rest) d (d₁.nodes.size :: ids) d'

theorem Reads.append {document : Json} {xs ys : List Part} {d d₁ d' : Draft}
    {ids ids' : List NodeId} (hx : Reads document xs d ids d₁) (hy : Reads document ys d₁ ids' d') :
    Reads document (xs ++ ys) d (ids ++ ids') d' := by
  induction hx with
  | nil d => exact hy
  | bare _ ih => exact .bare (ih hy)
  | any _ ih => exact .any (ih hy)
  | object ht hd ho hk hp _ _ ih => exact .object ht hd ho hk hp (ih hy)

/-- Giving the waiting references their targets, with the pointers that were read on demand in the
order in which they came up. -/
inductive Resolves (document : Json) : Draft → List String → Draft → Prop
  | done {d : Draft} (hpending : d.pending = []) : Resolves document d [] d
  | skip {d d' : Draft} {id : NodeId} {rest : List NodeId} {demands : List String}
      (hpending : d.pending = id :: rest) (hkind : (d.nodes.node id).kind.isReference = false)
      (hrest : Resolves document { d with pending := rest } demands d') :
      Resolves document d demands d'
  | known {d d' : Draft} {id target : NodeId} {rest : List NodeId} {demands : List String}
      {reference pointer : String} {resolved : Option NodeId}
      (hpending : d.pending = id :: rest)
      (hkind : (d.nodes.node id).kind = .reference reference resolved)
      (hpointer : Pointer.ofReference? reference = some pointer)
      (hknown : d.locations.lookup pointer = some target)
      (hrest : Resolves document (({ d with pending := rest } : Draft).bind id target) demands d') :
      Resolves document d demands d'
  | demand {d d₁ d' : Draft} {id target : NodeId} {rest : List NodeId} {demands : List String}
      {reference pointer : String} {resolved : Option NodeId} {value : Json}
      (hpending : d.pending = id :: rest)
      (hkind : (d.nodes.node id).kind = .reference reference resolved)
      (hpointer : Pointer.ofReference? reference = some pointer)
      (hknown : d.locations.lookup pointer = none)
      (hvalue : document.at? pointer = some value)
      (hreads : Reads document [.located pointer value] { d with pending := rest } [target] d₁)
      (hrest : Resolves document (d₁.bind id target) demands d') :
      Resolves document d (pointer :: demands) d'

namespace Reader

open Steps

mutual
/-- The reader of a value follows the rules. -/
theorem schema_reads {document : Json} {pointer : String} {id : NodeId} {d d' : Draft} :
    ∀ {value : Json}, (schema document pointer value).run d = .ok (id, d') →
      Reads document [.located pointer value] d [id] d'
  | .bool true, h => by
    rw [schema] at h
    cases modifyGet_ok h
    exact .any (.nil _)
  | .object members, h => by
    rw [schema] at h
    obtain ⟨title, ht, h⟩ := lift_bind_ok h
    obtain ⟨description, hd, h⟩ := lift_bind_ok h
    obtain ⟨outline, ho, h⟩ := lift_bind_ok h
    suffices hk : ∃ kind d₁ parts ids, Assembles members pointer outline parts ids kind ∧
        Reads document parts d ids d₁ ∧
        (modifyGet (·.place pointer { title, description, kind }) : Reader NodeId).run d₁ =
          .ok (id, d') by
      obtain ⟨kind, d₁, parts, ids, hk, hp, h⟩ := hk
      cases modifyGet_ok h
      exact .object ht hd ho hk hp (.nil _)
    cases outline with
    | leaf kind =>
        obtain ⟨kind', _, hk, h⟩ := bind_ok h
        obtain ⟨rfl, rfl⟩ := pure_ok hk
        exact ⟨_, _, _, _, .leaf _, .nil _, h⟩
    | object =>
        obtain ⟨kind, d₁, hk, h⟩ := bind_ok h
        obtain ⟨parts, ids, ha, hp⟩ := object_reads hk
        exact ⟨_, _, _, _, ha, hp, h⟩
    | array =>
        obtain ⟨kind, d₁, hk, h⟩ := bind_ok h
        obtain ⟨parts, ids, ha, hp⟩ := array_reads hk
        exact ⟨_, _, _, _, ha, hp, h⟩
  | .bool false, h => by simp only [schema] at h; exact (throw_ok h).elim
  | .null, h => by simp only [schema] at h; exact (throw_ok h).elim
  | .number _, h => by simp only [schema] at h; exact (throw_ok h).elim
  | .string _, h => by simp only [schema] at h; exact (throw_ok h).elim
  | .array _, h => by simp only [schema] at h; exact (throw_ok h).elim
termination_by value => 4 * value.size
decreasing_by all_goals simp only [Json.size]; omega

theorem object_reads {document : Json} {pointer : String} {members : Members} {kind : Kind}
    {d d' : Draft} (h : (object document pointer members).run d = .ok (kind, d')) :
    ∃ parts ids, Assembles members pointer .object parts ids kind ∧
      Reads document parts d ids d' := by
  rw [object] at h
  obtain ⟨properties, d₁, hp, h⟩ := bind_ok h
  obtain ⟨required, hr, h⟩ := lift_bind_ok h
  obtain ⟨allOf, d₂, hb, h⟩ := bind_ok h
  obtain ⟨rfl, rfl⟩ := pure_ok h
  obtain ⟨named, ids, hnamed, hlen, rfl, hreads⟩ := declaredProperties_reads hp
  obtain ⟨values, hvalues, hreads'⟩ := branches_reads hb
  exact ⟨_, _, .object hnamed hvalues hlen hr, hreads.append hreads'⟩
termination_by 4 * Json.sizeMembers members + 3

theorem declaredProperties_reads {document : Json} {pointer : String} {members : Members}
    {properties : List (String × NodeId)} {d d' : Draft}
    (h : (declaredProperties document pointer members).run d = .ok (properties, d')) :
    ∃ named ids, Keyword.HoldsMembers members "properties" named ∧ ids.length = named.length ∧
      properties = (named.map Prod.fst).zip ids ∧
      Reads document (memberParts (Pointer.child pointer "properties") named) d ids d' := by
  rw [declaredProperties] at h
  split at h
  · obtain ⟨rfl, rfl⟩ := pure_ok h
    exact ⟨[], [], .inr ⟨‹_›, rfl⟩, rfl, rfl, .nil _⟩
  · rename_i named hp
    obtain ⟨ids, hlen, hids, hreads⟩ := properties_reads h
    exact ⟨named, ids, .inl hp, hlen, hids, hreads⟩
  · exact (throw_ok h).elim
termination_by 4 * Json.sizeMembers members + 2
decreasing_by
  have := Json.size_le_sizeMembers ‹members.lookup "properties" = _›
  simp only [Json.size] at this
  omega

theorem branches_reads {document : Json} {pointer : String} {members : Members}
    {ids : List NodeId} {d d' : Draft}
    (h : (branches document pointer members).run d = .ok (ids, d')) :
    ∃ values, Keyword.HoldsList members "allOf" values ∧
      Reads document (elementParts (Pointer.child pointer "allOf") 0 values) d ids d' := by
  rw [branches] at h
  split at h
  · obtain ⟨rfl, rfl⟩ := pure_ok h
    exact ⟨[], .inr ⟨‹_›, rfl⟩, .nil _⟩
  · rename_i values hp
    exact ⟨values, .inl hp, elements_reads h⟩
  · exact (throw_ok h).elim
termination_by 4 * Json.sizeMembers members + 2
decreasing_by
  have := Json.size_le_sizeMembers ‹members.lookup "allOf" = _›
  simp only [Json.size] at this
  omega

theorem array_reads {document : Json} {pointer : String} {members : Members} {kind : Kind}
    {d d' : Draft} (h : (array document pointer members).run d = .ok (kind, d')) :
    ∃ parts ids, Assembles members pointer .array parts ids kind ∧
      Reads document parts d ids d' := by
  rw [array] at h
  split at h
  · rename_i hi
    obtain ⟨id, d₁, hid, h⟩ := bind_ok h
    cases modifyGet_ok hid
    obtain ⟨rfl, rfl⟩ := pure_ok h
    exact ⟨_, _, .bareArray hi, .bare (.nil _)⟩
  · rename_i hi
    obtain ⟨ids, d₁, hids, h⟩ := bind_ok h
    obtain ⟨rfl, rfl⟩ := pure_ok h
    exact ⟨_, _, .tuple hi, elements_reads hids⟩
  · rename_i hlist hi
    obtain ⟨id, d₁, hid, h⟩ := bind_ok h
    obtain ⟨rfl, rfl⟩ := pure_ok h
    exact ⟨_, _, .array hi hlist, schema_reads hid⟩
termination_by 4 * Json.sizeMembers members + 2
decreasing_by
  · have := Json.size_le_sizeMembers ‹members.lookup "items" = _›
    simp only [Json.size] at this
    omega
  · have := Json.size_le_sizeMembers ‹members.lookup "items" = _›
    omega

theorem properties_reads {document : Json} {base : String} {properties : List (String × NodeId)}
    {d d' : Draft} : ∀ {named : Members},
      (Reader.properties document base named).run d = .ok (properties, d') →
      ∃ ids, ids.length = named.length ∧ properties = (named.map Prod.fst).zip ids ∧
        Reads document (memberParts base named) d ids d'
  | [], h => by
    rw [Reader.properties] at h
    obtain ⟨rfl, rfl⟩ := pure_ok h
    exact ⟨[], rfl, rfl, .nil _⟩
  | (name, value) :: rest, h => by
    rw [Reader.properties] at h
    obtain ⟨id, d₁, hid, h⟩ := bind_ok h
    obtain ⟨tail, d₂, htail, h⟩ := bind_ok h
    obtain ⟨rfl, rfl⟩ := pure_ok h
    obtain ⟨ids, hlen, rfl, hrest⟩ := properties_reads htail
    exact ⟨id :: ids, by simp [hlen], rfl, (schema_reads hid).append hrest⟩
termination_by named => 4 * Json.sizeMembers named + 1
decreasing_by
  all_goals
    have := value.size_pos
    simp only [Json.sizeMembers]
    omega

theorem elements_reads {document : Json} {base : String} {index : Nat} {ids : List NodeId}
    {d d' : Draft} : ∀ {values : List Json},
      (elements document base index values).run d = .ok (ids, d') →
      Reads document (elementParts base index values) d ids d'
  | [], h => by
    rw [elements] at h
    obtain ⟨rfl, rfl⟩ := pure_ok h
    exact .nil _
  | value :: rest, h => by
    rw [elements] at h
    obtain ⟨id, d₁, hid, h⟩ := bind_ok h
    obtain ⟨tail, d₂, htail, h⟩ := bind_ok h
    obtain ⟨rfl, rfl⟩ := pure_ok h
    exact (schema_reads hid).append (elements_reads htail)
termination_by values => 4 * Json.sizeElements values + 1
decreasing_by
  all_goals
    have := value.size_pos
    simp only [Json.sizeElements]
    omega
end

/-- The node that a reference denotes was known, or it was read on demand. -/
theorem target_ok {document : Json} {reference : String} {id : NodeId} {d d' : Draft}
    (h : (target document reference).run d = .ok (id, d')) :
    ∃ pointer, Pointer.ofReference? reference = some pointer ∧
      (d.locations.lookup pointer = some id ∧ d' = d ∨
        d.locations.lookup pointer = none ∧ ∃ value, document.at? pointer = some value ∧
          Reads document [.located pointer value] d [id] d') := by
  rw [target] at h
  obtain ⟨pointer, hp, h⟩ := lift_bind_ok h
  replace h := get_bind_ok h
  refine ⟨pointer, Keyword.referencePointer_ok hp, ?_⟩
  split at h
  · obtain ⟨rfl, rfl⟩ := pure_ok h
    exact .inl ⟨‹_›, rfl⟩
  · split at h
    · exact .inr ⟨‹_›, _, ‹_›, schema_reads h⟩
    · exact (throw_ok h).elim

theorem resolve_resolves {document : Json} : ∀ {budget : Nat} {d d' : Draft},
    (resolve document budget).run d = .ok ((), d') → ∃ demands, Resolves document d demands d'
  | 0, _, _, h => (throw_ok h).elim
  | budget + 1, d, d', h => by
    rw [resolve] at h
    replace h := get_bind_ok h
    split at h
    · obtain ⟨-, rfl⟩ := pure_ok h
      exact ⟨[], .done ‹_›⟩
    · rename_i id rest hpending
      obtain ⟨_, _, hs, h⟩ := bind_ok h
      cases hs
      split at h
      · rename_i reference resolved hkind
        obtain ⟨found, d₁, hf, h⟩ := bind_ok h
        obtain ⟨_, _, hm, h⟩ := bind_ok h
        cases hm
        obtain ⟨demands, hrest⟩ := resolve_resolves h
        obtain ⟨pointer, hpointer, ⟨hknown, rfl⟩ | ⟨hknown, value, hvalue, hreads⟩⟩ := target_ok hf
        · exact ⟨demands, .known hpending hkind hpointer hknown hrest⟩
        · exact ⟨pointer :: demands, .demand hpending hkind hpointer hknown hvalue hreads hrest⟩
      · rename_i hkind
        obtain ⟨demands, hrest⟩ := resolve_resolves h
        refine ⟨demands, .skip hpending ?_ hrest⟩
        cases hk : (d.nodes.node id).kind with
        | reference reference resolved => exact (hkind _ _ hk).elim
        | _ => rfl

end Reader

/-- A run of the reader: it ends in a draft after it read the schemas at some pointers on demand, in
this order. -/
def Schema.ReadTo (document : Json) (s : Schema) (demands : List String) (d : Draft) : Prop :=
  ∃ d₀, Reads document [.located "" document] {} [s.root] d₀ ∧ Resolves document d₀ demands d ∧
    s.nodes = d.nodes

/-- A schema that is read is what the root and then the waiting references were read to. -/
theorem Schema.read_steps {document : Json} {s : Schema} (h : Schema.read document = .ok s) :
    ∃ demands d, s.ReadTo document demands d := by
  unfold Schema.read at h
  obtain ⟨⟨root, d⟩, hrun, h⟩ := Steps.of_bind_ok h
  obtain ⟨u, -, h⟩ := Steps.of_bind_ok h
  cases h
  obtain ⟨root', d₀, hroot, hrun⟩ := Steps.bind_ok hrun
  obtain ⟨_, d₁, hresolve, hrun⟩ := Steps.bind_ok hrun
  obtain ⟨rfl, rfl⟩ := Steps.pure_ok hrun
  obtain ⟨demands, hresolves⟩ := Reader.resolve_resolves hresolve
  exact ⟨demands, _, d₀, Reader.schema_reads hroot, hresolves, rfl⟩

end SchemaBridge
