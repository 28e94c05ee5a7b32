import SchemaBridge.Proofs.DocumentParts
import SchemaBridge.Proofs.FaithfulReading

/-!
How often a location is read. A reference takes the node of a pointer that was read before, letter by
letter the same. But a schema that is read on demand is read with all its parts, whether or not one
of them was read on demand before it; that part then has two nodes. Main statement: every location
has one node exactly if no two of the schemas that are read, the root and those on demand, share a
location.
-/

namespace SchemaBridge

/-- The schemas at two pointers have no location in common, however it is spelled. -/
def Unshared (document : Json) (pointer pointer' : String) : Prop :=
  ∀ location location', Within document pointer location → Within document pointer' location' →
    Pointer.tokens? location ≠ Pointer.tokens? location'

/-- One node for each location: no location is read twice, references to one location have one
target, and a reference to a part of a node leads to that very part. -/
structure Schema.OneNodeEach (s : Schema) (place : NodeId → Option String) : Prop where
  unrepeated : ∀ id id' pointer pointer', place id = some pointer → place id' = some pointer' →
    Pointer.tokens? pointer = Pointer.tokens? pointer' → id = id'
  shared : ∀ id id' text text' target target' pointer pointer',
    (s.node id).kind = .reference text (some target) →
    (s.node id').kind = .reference text' (some target') →
    Pointer.ofReference? text = some pointer → Pointer.ofReference? text' = some pointer' →
    Pointer.tokens? pointer = Pointer.tokens? pointer' → target = target'
  structural : ∀ id text target pointer parent part pointer',
    (s.node id).kind = .reference text (some target) → Pointer.ofReference? text = some pointer →
    part ∈ (s.node parent).kind.children → place part = some pointer' →
    Pointer.tokens? pointer = Pointer.tokens? pointer' → target = part

/-- In a faithful schema the references follow from the places. -/
theorem FaithfulBy.oneNodeEach {document : Json} {s : Schema} {place : NodeId → Option String}
    (h : FaithfulBy document s place)
    (hunrepeated : ∀ id id' pointer pointer', place id = some pointer → place id' = some pointer' →
      Pointer.tokens? pointer = Pointer.tokens? pointer' → id = id') : s.OneNodeEach place := by
  have hplace : ∀ {id text target pointer}, (s.node id).kind = .reference text (some target) →
      Pointer.ofReference? text = some pointer → place target = some pointer := by
    intro id text target pointer href hpointer
    obtain ⟨found, place, hfound, -, hof, hat⟩ := h.reference id text (some target) href
    cases hfound
    rw [hpointer] at hof
    cases hof
    exact hat
  refine ⟨hunrepeated, ?_, ?_⟩
  · intro id id' text text' target target' pointer pointer' href href' hpointer hpointer' htokens
    exact hunrepeated _ _ _ _ (hplace href hpointer) (hplace href' hpointer') htokens
  · intro id text target pointer parent part pointer' href hpointer _ hpart htokens
    exact hunrepeated _ _ _ _ (hplace href hpointer) hpart htokens

namespace Draft

def placeTokens (d : Draft) : List (Option (List String)) :=
  (d.locations.map Prod.fst).map Pointer.tokens?

/-- The locations that have nodes are those within some schemas. -/
def Holds (document : Json) (d : Draft) (roots : List String) : Prop :=
  ∀ location, location ∈ d.locations.map Prod.fst ↔
    ∃ root ∈ roots, Within document root location

theorem placeTokens_nodup_iff {d : Draft} (hd : d.Indexed) :
    d.placeTokens.Nodup ↔ ∀ id id' pointer pointer', d.pointer? id = some pointer →
      d.pointer? id' = some pointer' → Pointer.tokens? pointer = Pointer.tokens? pointer' →
      id = id' := by
  rw [placeTokens, List.map_map]
  constructor
  · intro hnodup id id' pointer pointer' hid hid' htokens
    have heq := List.inj_on_of_nodup_map hnodup (mem_of_pointer? hid) (mem_of_pointer? hid') htokens
    exact congrArg Prod.snd heq
  · intro hunrepeated
    have hids := List.pairwise_map.mp hd.nodup
    apply List.pairwise_map.mpr
    apply hids.imp_of_mem
    intro e e' he he' hne htokens
    exact hne (hunrepeated _ _ _ _ (hd.pointer?_of_mem he) (hd.pointer?_of_mem he') htokens)

end Draft

/-- Reading one more schema keeps every location single exactly if it shares none with the schemas
before. -/
theorem Reads.placeTokens_nodup_iff {document : Json} (hdistinct : document.DistinctKeys)
    {pointer : String} {value : Json} (hvalue : document.at? pointer = some value) {d d' : Draft}
    {id : NodeId} (h : Reads document [.located pointer value] d [id] d') {roots : List String}
    (hroots : d.Holds document roots) :
    d'.Holds document (roots ++ [pointer]) ∧ (d'.placeTokens.Nodup ↔
      d.placeTokens.Nodup ∧ ∀ root ∈ roots, Unshared document root pointer) := by
  obtain ⟨pointers, heq, hcovers⟩ := h.covers hdistinct (by simpa [Part.Fits] using hvalue)
  have hmem : ∀ location, location ∈ pointers ↔ Within document pointer location := by
    intro location
    rw [hcovers.mem_iff]
    simp [Part.pointer?]
  constructor
  · intro location
    rw [heq, List.mem_append, hmem, hroots location]
    simp only [List.mem_append, List.mem_singleton, or_and_right, exists_or, exists_eq_left]
    exact or_comm
  · rw [Draft.placeTokens, heq, List.map_append, List.nodup_append, Draft.placeTokens]
    have hnodup := hcovers.nodup (List.pairwise_singleton _ _)
    constructor
    · rintro ⟨-, hold, hne⟩
      refine ⟨hold, ?_⟩
      intro root hroot location location' hwithin hwithin'
      have hold' := (hroots location).mpr ⟨root, hroot, hwithin⟩
      have hnew := (hmem location').mpr hwithin'
      exact (hne _ (List.mem_map_of_mem hnew) _ (List.mem_map_of_mem hold')).symm
    · rintro ⟨hold, hunshared⟩
      refine ⟨hnodup, hold, ?_⟩
      intro a ha b hb
      obtain ⟨location', hlocation', rfl⟩ := List.mem_map.mp ha
      obtain ⟨location, hlocation, rfl⟩ := List.mem_map.mp hb
      obtain ⟨root, hroot, hwithin⟩ := (hroots location).mp hlocation
      exact (hunshared root hroot location location' hwithin ((hmem location').mp hlocation')).symm

/-- Over a whole run, the locations stay single exactly if the schemas that are read share none. -/
theorem Resolves.placeTokens_nodup_iff {document : Json} (hdistinct : document.DistinctKeys)
    {d d' : Draft} {demands : List String} (h : Resolves document d demands d')
    {roots : List String} (hroots : d.Holds document roots)
    (hone : d.placeTokens.Nodup ↔ roots.Pairwise (Unshared document)) :
    d'.placeTokens.Nodup ↔ (roots ++ demands).Pairwise (Unshared document) := by
  induction h generalizing roots with
  | done => rwa [List.append_nil]
  | skip _ _ _ ih => exact ih hroots hone
  | known _ _ _ _ _ ih => exact ih hroots hone
  | @demand d d₁ d' id target rest later reference pointer resolved value _ _ _ _ hvalue hreads
      _ ih =>
      have hbefore : ({ d with pending := rest } : Draft).Holds document roots := hroots
      obtain ⟨hroots', hstep⟩ := hreads.placeTokens_nodup_iff hdistinct hvalue hbefore
      have hone' : (d₁.bind id target).placeTokens.Nodup ↔
          (roots ++ [pointer]).Pairwise (Unshared document) := by
        rw [List.pairwise_append, ← hone]
        apply hstep.trans
        apply and_congr_right
        intro _
        simp
      have hrun : d'.placeTokens.Nodup ↔
          ((roots ++ [pointer]) ++ later).Pairwise (Unshared document) := ih hroots' hone'
      rwa [List.append_assoc] at hrun

/-- The locations of a document have one node each exactly if the schemas that are read, the root
and then those on demand, share no location. -/
theorem Schema.read_oneNodeEach_iff {document : Json} {s : Schema}
    (hdistinct : document.DistinctKeys) (h : Schema.read document = .ok s) :
    ∃ demands d, s.ReadTo document demands d ∧ FaithfulBy document s d.pointer? ∧
      (s.OneNodeEach d.pointer? ↔ ("" :: demands).Pairwise (Unshared document)) := by
  obtain ⟨demands, d, hrun⟩ := Schema.read_steps h
  have hfaithful := hrun.faithful hdistinct
  obtain ⟨hsound, -, -⟩ := hrun.sound hdistinct
  refine ⟨demands, d, hrun, hfaithful, ?_⟩
  obtain ⟨d₀, hroot, hresolves, -⟩ := hrun
  have hempty : ({} : Draft).Holds document [] := by
    intro location
    simp
  obtain ⟨hroots, hone⟩ := hroot.placeTokens_nodup_iff hdistinct rfl hempty
  have hstart : d₀.placeTokens.Nodup ↔ [""].Pairwise (Unshared document) := by
    rw [hone]
    simp [Draft.placeTokens]
  have hiff : d.placeTokens.Nodup ↔ ("" :: demands).Pairwise (Unshared document) :=
    hresolves.placeTokens_nodup_iff hdistinct hroots hstart
  rw [← hiff, Draft.placeTokens_nodup_iff hsound.indexed]
  exact ⟨fun hone => hone.unrepeated, hfaithful.oneNodeEach⟩

/-- A document in which a part of a definition is read on demand, then the definition, and then a
second reference to the part is followed. -/
def nestedDemandsDocument : Json :=
  .object [
    ("properties", .object [("c", .object [("$ref", .string "#/definitions/D/properties/x")]),
      ("a", .object [("$ref", .string "#/definitions/D")]),
      ("b", .object [("$ref", .string "#/definitions/D/properties/x")])]),
    ("definitions", .object [("D", .object [("properties", .object [
      ("x", .object [("type", .string "string")])])])])]

/-- The schema that the document is read to. The part has two nodes, and each of the references to
it leads to another of them. -/
def nestedDemandsSchema : Schema where
  nodes := #[{ kind := .reference "#/definitions/D/properties/x" (some 5) },
    { kind := .reference "#/definitions/D" (some 6) },
    { kind := .reference "#/definitions/D/properties/x" (some 4) },
    { kind := .object { properties := [("c", 0), ("a", 1), ("b", 2)] } },
    { kind := .primitive .string }, { kind := .primitive .string },
    { kind := .object { properties := [("x", 5)] } }]
  root := 3

theorem nestedDemandsDocument_distinctKeys : nestedDemandsDocument.DistinctKeys := by
  decide

set_option maxRecDepth 10000 in
theorem read_nestedDemandsDocument :
    Schema.read nestedDemandsDocument = .ok nestedDemandsSchema := by
  cbv

/-- Two references with the same text lead to different nodes. -/
theorem read_nestedDemands_repeats :
    Schema.read nestedDemandsDocument = .ok nestedDemandsSchema ∧
      ∀ place, ¬nestedDemandsSchema.OneNodeEach place := by
  refine ⟨read_nestedDemandsDocument, fun place hone => ?_⟩
  have hpointer : Pointer.ofReference? "#/definitions/D/properties/x" =
      some "/definitions/D/properties/x" := by decide
  have heq := hone.shared 0 2 _ _ 5 4 _ _ rfl rfl hpointer hpointer rfl
  cases heq

theorem Schema.read_oneNodeEach_iff_nestedDemands :
    nestedDemandsDocument.DistinctKeys ∧
      Schema.read nestedDemandsDocument = .ok nestedDemandsSchema ∧
      ∃ demands d, nestedDemandsSchema.ReadTo nestedDemandsDocument demands d ∧
        FaithfulBy nestedDemandsDocument nestedDemandsSchema d.pointer? ∧
        (nestedDemandsSchema.OneNodeEach d.pointer? ↔
          ("" :: demands).Pairwise (Unshared nestedDemandsDocument)) :=
  ⟨nestedDemandsDocument_distinctKeys, read_nestedDemandsDocument,
    Schema.read_oneNodeEach_iff nestedDemandsDocument_distinctKeys read_nestedDemandsDocument⟩

end SchemaBridge
