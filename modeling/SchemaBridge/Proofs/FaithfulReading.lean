import Mathlib
import SchemaBridge.Proofs.DocumentPlaces

/-!
Reading a document faithfully. A draft is sound when its nodes say what stands at their places in
the document and its bound references lead to the places that they name. Reading parts keeps a draft
sound, and so does giving a reference its target, whether the target was known or is read on demand;
what was read before stays where it is. Main statement: every schema that is read is faithful to its
document, and its references all have targets.
-/

namespace SchemaBridge

/-- A node is the items of an array that has no `items`. -/
def Draft.Supplied (document : Json) (d : Draft) (id : NodeId) : Prop :=
  ∃ parent pointer members, d.pointer? parent = some pointer ∧
    document.at? pointer = some (.object members) ∧ members.lookup "items" = none ∧
    (d.nodes.node parent).kind = .array id

/-- What a node is by its place, and where a bound reference leads. -/
structure Draft.SoundAt (document : Json) (d : Draft) (id : Nat) : Prop where
  located : ∀ pointer, d.pointer? id = some pointer → ∃ value, document.at? pointer = some value ∧
    Describes document d.pointer? pointer value (d.nodes.node id)
  unlocated : d.pointer? id = none → d.nodes.node id = { kind := .untyped } ∧ d.Supplied document id
  children_lt : ∀ c : Nat, c ∈ (d.nodes.node id).kind.children → c < id
  bound : ∀ reference target, (d.nodes.node id).kind = .reference reference (some target) →
    ∃ pointer, Pointer.ofReference? reference = some pointer ∧ d.pointer? target = some pointer

/-- What every draft satisfies while its references are followed. -/
structure Draft.Sound (document : Json) (d : Draft) : Prop where
  indexed : d.Indexed
  node : ∀ id : Nat, id < d.nodes.size → d.SoundAt document id

/-- The references without a target are among the given nodes. -/
def Draft.AwaitedIn (d : Draft) (ids : List NodeId) : Prop :=
  ∀ id reference, (d.nodes.node id).kind = .reference reference none → id ∈ ids

theorem Draft.Indexed.lt_of_pointer? {d : Draft} (h : d.Indexed) {id : Nat} {pointer : String}
    (hid : d.pointer? id = some pointer) : id < d.nodes.size :=
  h.lt _ (mem_of_pointer? hid)

/-- A node describes its value as long as its parts stay in their places. -/
theorem Describes.congr {document : Json} {place place' : NodeId → Option String} {pointer : String}
    {value : Json} {n : Node} (h : Describes document place pointer value n)
    (hplace : ∀ c ∈ n.kind.children, place' c = place c) :
    Describes document place' pointer value n := by
  cases h with
  | any => exact .any
  | object htitle hdescription hkind =>
      exact .object htitle hdescription (hkind.congr hplace)

/-- A node that was read for a part describes it. -/
theorem Draft.Records.describes {document : Json} {d : Draft} {id : NodeId} {pointer : String}
    {value : Json} (h : d.Records document id (.located pointer value)) :
    d.pointer? id = some pointer ∧
      Describes document d.pointer? pointer value (d.nodes.node id) := by
  cases h with
  | any hplace hnode => exact ⟨hplace, by rw [hnode]; exact .any⟩
  | object hplace htitle hdescription houtline hkind _ hplaces hnode _ =>
      refine ⟨hplace, ?_⟩
      rw [hnode]
      exact .object (Keyword.text?_ok htitle) (Keyword.text?_ok hdescription)
        (hkind.spells houtline hplaces)

theorem Draft.Supplied.grows {document : Json} {d d' : Draft} {id : NodeId}
    (h : d.Supplied document id) (hd : d.Indexed) (hgrows : d.Grows d') :
    d'.Supplied document id := by
  obtain ⟨parent, pointer, members, hplace, hvalue, hitems, harray⟩ := h
  have hparent := hd.lt_of_pointer? hplace
  rw [← hgrows.pointer?_eq hparent] at hplace
  rw [← hgrows.node_eq parent hparent] at harray
  exact ⟨parent, pointer, members, hplace, hvalue, hitems, harray⟩

theorem Draft.SoundAt.grows {document : Json} {d d' : Draft} {id : Nat}
    (h : d.SoundAt document id) (hd : d.Indexed) (hgrows : d.Grows d') (hid : id < d.nodes.size) :
    d'.SoundAt document id := by
  have hnode := hgrows.node_eq id hid
  have hplace := hgrows.pointer?_eq hid
  refine ⟨fun pointer hpointer => ?_, fun hnone => ?_, by rw [hnode]; exact h.children_lt, ?_⟩
  · rw [hplace] at hpointer
    obtain ⟨value, hvalue, hdescribes⟩ := h.located pointer hpointer
    rw [hnode]
    refine ⟨value, hvalue, hdescribes.congr ?_⟩
    intro c hc
    exact hgrows.pointer?_eq ((h.children_lt c hc).trans hid)
  · rw [hplace] at hnone
    obtain ⟨huntyped, hsupplied⟩ := h.unlocated hnone
    rw [← hnode] at huntyped
    exact ⟨huntyped, hsupplied.grows hd hgrows⟩
  · intro reference target href
    rw [hnode] at href
    obtain ⟨pointer, hpointer, htarget⟩ := h.bound reference target href
    rw [← hgrows.pointer?_eq (hd.lt_of_pointer? htarget)] at htarget
    exact ⟨pointer, hpointer, htarget⟩

theorem Part.fits_handsDown {document : Json} (hdistinct : document.DistinctKeys) :
    HandsDown (Part.Fits document) :=
  fun hpart hkind => hkind.fit hdistinct hpart

theorem elementParts_located (base : String) (index : Nat) (values : List Json) :
    ∀ part ∈ elementParts base index values, part.pointer? ≠ none := by
  induction values generalizing index with
  | nil => simp [elementParts]
  | cons value rest ih =>
      exact List.forall_mem_cons.mpr ⟨by simp [Part.pointer?], ih (index + 1)⟩

theorem memberParts_located (base : String) (named : Members) :
    ∀ part ∈ memberParts base named, part.pointer? ≠ none := by
  intro part hpart
  obtain ⟨m, -, rfl⟩ := List.mem_map.mp hpart
  simp [Part.pointer?]

/-- Only the items of an array without `items` are read without a place. -/
theorem Assembles.bareArray_of_unplaced {members : Members} {pointer : String} {outline : Outline}
    {parts : List Part} {ids : List NodeId} {kind : Kind} {place : NodeId → Option String}
    (h : Assembles members pointer outline parts ids kind)
    (hplaces : ids.map place = parts.map Part.pointer?) {id : NodeId} (hmem : id ∈ ids)
    (hnone : place id = none) : members.lookup "items" = none ∧ kind = .array id := by
  obtain ⟨part, hpart, hpointer⟩ : ∃ part ∈ parts, part.pointer? = none := by
    rw [← List.mem_map, ← hplaces, ← hnone]
    exact List.mem_map_of_mem hmem
  cases h with
  | leaf => cases hpart
  | object =>
      rcases List.mem_append.mp hpart with hpart | hpart
      · exact (memberParts_located _ _ part hpart hpointer).elim
      · exact (elementParts_located _ _ _ part hpart hpointer).elim
  | bareArray hitems =>
      rw [List.mem_singleton.mp hmem]
      exact ⟨hitems, rfl⟩
  | tuple => exact (elementParts_located _ _ _ part hpart hpointer).elim
  | array =>
      rw [List.mem_singleton.mp hpart] at hpointer
      cases hpointer

namespace Reads

variable {document : Json} {parts : List Part} {d d' : Draft} {ids : List NodeId}

/-- A new node without a place is one of the parts that are read, or it was supplied to a new
array. -/
theorem supplied (hdistinct : document.DistinctKeys) (h : Reads document parts d ids d')
    (hd : d.Indexed) (hparts : ∀ part ∈ parts, part.Fits document) :
    ∀ id : Nat, d.nodes.size ≤ id → id < d'.nodes.size → d'.pointer? id = none →
      id ∈ ids ∨ d'.Supplied document id := by
  induction h with
  | nil d => intro id hle hlt; omega
  | @bare d d' rest ids hrest ih =>
      intro id hle hlt hnone
      obtain ⟨-, hparts⟩ := List.forall_mem_cons.mp hparts
      rcases hle.eq_or_lt with rfl | hlt'
      · exact .inl List.mem_cons_self
      · have hle' : (d.push { kind := .untyped }).2.nodes.size ≤ id := by
          rw [Draft.size_push]
          exact hlt'
        have hrest' := ih (hd.push _) hparts id hle' hlt hnone
        exact hrest'.imp_left (List.mem_cons_of_mem _)
  | @any d d' pointer rest ids hrest ih =>
      intro id hle hlt hnone
      obtain ⟨-, hparts⟩ := List.forall_mem_cons.mp hparts
      rcases hle.eq_or_lt with rfl | hlt'
      · exact .inl List.mem_cons_self
      · have hle' : (d.place pointer { kind := .untyped }).2.nodes.size ≤ id := by
          rw [Draft.size_place]
          exact hlt'
        have hrest' := ih (hd.place _ _) hparts id hle' hlt hnone
        exact hrest'.imp_left (List.mem_cons_of_mem _)
  | @object d d₁ d' pointer members title description outline inner rest innerIds ids kind
      _ _ houtline hkind hinner hrest ihinner ih =>
      intro id hle hlt hnone
      obtain ⟨hpart, hparts⟩ := List.forall_mem_cons.mp hparts
      have hindexed := hinner.indexed hd
      have hgrows := (d₁.grows_place pointer { title, description, kind }).trans hrest.grows
      have hself : d'.pointer? d₁.nodes.size = some pointer := by
        rw [hrest.grows.pointer?_eq (by simp), Draft.pointer?_place_self]
      have hnode : d'.nodes.node d₁.nodes.size = { title, description, kind } := by
        rw [hrest.grows.node_eq _ (by simp), Draft.node_place_self]
      rcases Nat.lt_trichotomy id d₁.nodes.size with hid | rfl | hid
      · rw [hgrows.pointer?_eq hid] at hnone
        right
        rcases ihinner hd (hkind.fit hdistinct hpart) id hle hid hnone with hmem | howner
        · obtain ⟨hitems, rfl⟩ := hkind.bareArray_of_unplaced (hinner.pointers hd) hmem hnone
          exact ⟨_, pointer, members, hself, hpart, hitems, by rw [hnode]⟩
        · exact howner.grows hindexed hgrows
      · rw [hself] at hnone
        cases hnone
      · have hle' : (d₁.place pointer { title, description, kind }).2.nodes.size ≤ id := by
          rw [Draft.size_place]
          exact hid
        have hrest' := ih (hindexed.place _ _) hparts id hle' hlt hnone
        exact hrest'.imp_left (List.mem_cons_of_mem _)

theorem soundAt (hdistinct : document.DistinctKeys) (h : Reads document parts d ids d')
    (hparts : ∀ part ∈ parts, part.Fits document) (hlocated : ∀ part ∈ parts, part.pointer? ≠ none)
    (hd : d.Indexed) : ∀ id : Nat, d.nodes.size ≤ id → id < d'.nodes.size →
      d'.SoundAt document id := by
  intro id hle hlt
  obtain ⟨part, hfits, hrecord⟩ := h.recorded (Part.fits_handsDown hdistinct) hd hparts id hle hlt
  refine ⟨?_, fun hnone => ⟨?_, ?_⟩, hrecord.children_lt, ?_⟩
  · intro pointer hpointer
    cases part with
    | bare =>
        cases hrecord with
        | bare hplace _ => rw [hplace] at hpointer; cases hpointer
    | located place value =>
        obtain ⟨hplace, hdescribes⟩ := hrecord.describes
        rw [hplace] at hpointer
        obtain rfl := Option.some.inj hpointer
        exact ⟨value, hfits, hdescribes⟩
  · cases hrecord with
    | bare _ hnode => exact hnode
    | any _ hnode => exact hnode
    | object hplace => rw [hplace] at hnone; cases hnone
  · apply (h.supplied hdistinct hd hparts id hle hlt hnone).resolve_left
    intro hmem
    have hplaces := List.mem_map_of_mem (f := d'.pointer?) hmem
    rw [h.pointers hd, hnone] at hplaces
    obtain ⟨part, hpart, hpointer⟩ := List.mem_map.mp hplaces
    exact hlocated part hpart hpointer
  · intro reference target href
    cases (hrecord.reference href).1

/-- Reading parts of the document keeps a draft sound. -/
theorem sound (hdistinct : document.DistinctKeys) (h : Reads document parts d ids d')
    (hparts : ∀ part ∈ parts, part.Fits document) (hlocated : ∀ part ∈ parts, part.pointer? ≠ none)
    (hd : d.Sound document) : d'.Sound document := by
  refine ⟨h.indexed hd.indexed, fun id hid => ?_⟩
  rcases Nat.lt_or_ge id d.nodes.size with hlt | hle
  · exact (hd.node id hlt).grows hd.indexed h.grows hlt
  · exact h.soundAt hdistinct hparts hlocated hd.indexed id hle hid

end Reads

/-! ### Following references -/

/-- A reference describes the same value whatever its target. -/
theorem Describes.bind {document : Json} {place : NodeId → Option String} {pointer : String}
    {value : Json} {n : Node} {reference : String} {resolved : Option NodeId}
    (h : Describes document place pointer value n) (hkind : n.kind = .reference reference resolved)
    (target : NodeId) : Describes document place pointer value
      { n with kind := .reference reference (some target) } := by
  cases h with
  | any => cases hkind
  | object htitle hdescription hspells =>
      rw [hkind] at hspells
      cases hspells with
      | reference houtline => exact .object htitle hdescription (.reference houtline)
      | leaf _ hleaf => cases hleaf

theorem Draft.Supplied.bind {document : Json} {d : Draft} {id i : NodeId} {reference : String}
    {resolved : Option NodeId} (h : d.Supplied document i)
    (hkind : (d.nodes.node id).kind = .reference reference resolved) (target : NodeId) :
    (d.bind id target).Supplied document i := by
  obtain ⟨parent, pointer, members, hplace, hvalue, hitems, harray⟩ := h
  have hne : parent ≠ id := by
    rintro rfl
    rw [hkind] at harray
    cases harray
  exact ⟨parent, pointer, members, hplace, hvalue, hitems, by rw [node_bind_of_ne hne, harray]⟩

/-- A reference that gets the node at the place that it names leaves a draft sound. -/
theorem Draft.Sound.bind {document : Json} {d : Draft} {id target : NodeId} {reference pointer : String}
    {resolved : Option NodeId} (hd : d.Sound document)
    (hkind : (d.nodes.node id).kind = .reference reference resolved)
    (hpointer : Pointer.ofReference? reference = some pointer)
    (htarget : d.pointer? target = some pointer) : (d.bind id target).Sound document := by
  refine ⟨hd.indexed.bind id target, fun i hi => ?_⟩
  rw [size_bind] at hi
  have h := hd.node i hi
  rcases Decidable.eq_or_ne i id with rfl | hne
  · have hnode := node_bind_self hkind target
    refine ⟨fun place hplace => ?_, fun hnone => ?_, ?_, ?_⟩
    · obtain ⟨value, hvalue, hdescribes⟩ := h.located place hplace
      rw [hnode]
      exact ⟨value, hvalue, hdescribes.bind hkind target⟩
    · rw [(h.unlocated hnone).1] at hkind
      cases hkind
    · rw [hnode]
      intro c hc
      cases hc
    · rw [hnode]
      intro text bound heq
      cases heq
      exact ⟨pointer, hpointer, htarget⟩
  · have hnode := node_bind_of_ne (d := d) hne target
    refine ⟨fun place hplace => ?_, fun hnone => ?_, ?_, ?_⟩
    · rw [hnode]
      exact h.located place hplace
    · obtain ⟨huntyped, hsupplied⟩ := h.unlocated hnone
      rw [hnode]
      exact ⟨huntyped, hsupplied.bind hkind target⟩
    · rw [hnode]
      exact h.children_lt
    · rw [hnode]
      exact h.bound

theorem Draft.AwaitedIn.bind {d : Draft} {id target : NodeId} {rest : List NodeId}
    {reference : String} {resolved : Option NodeId} (hd : d.AwaitedIn (id :: rest))
    (hkind : (d.nodes.node id).kind = .reference reference resolved) :
    (d.bind id target).AwaitedIn rest := by
  intro i text hunresolved
  rcases Decidable.eq_or_ne i id with rfl | hne
  · rw [node_bind_self hkind target] at hunresolved
    cases hunresolved
  · rw [node_bind_of_ne hne] at hunresolved
    exact (List.mem_cons.mp (hd i text hunresolved)).resolve_left hne

theorem Part.handsDown_true : HandsDown fun _ => True :=
  fun _ _ _ _ => trivial

theorem Reads.awaitedIn {document : Json} {parts : List Part} {d d' : Draft} {ids : List NodeId}
    (h : Reads document parts d ids d') (hd : d.Indexed) (served : List NodeId)
    (hawaited : d.AwaitedIn (served ++ d.pending)) : d'.AwaitedIn (served ++ d'.pending) := by
  intro i reference hunresolved
  have hi := Arena.lt_size_of_reference hunresolved
  rcases Nat.lt_or_ge i d.nodes.size with hlt | hle
  · rw [h.grows.node_eq i hlt] at hunresolved
    obtain ⟨fresh, hfresh⟩ := h.grows.pending
    rw [hfresh]
    rcases List.mem_append.mp (hawaited i reference hunresolved) with hmem | hmem
    · exact List.mem_append_left _ hmem
    · exact List.mem_append_right _ (List.mem_append_right _ hmem)
  · obtain ⟨part, -, hrecord⟩ := h.recorded Part.handsDown_true hd (fun _ _ => trivial) i hle hi
    exact List.mem_append_right _ (hrecord.reference hunresolved).2

theorem Draft.Sound.setPending {document : Json} {d : Draft} (h : d.Sound document)
    (rest : List NodeId) : ({ d with pending := rest } : Draft).Sound document where
  indexed := ⟨h.indexed.lt, h.indexed.nodup⟩
  node id hid :=
    have hat := h.node id hid
    { located := hat.located, unlocated := hat.unlocated, children_lt := hat.children_lt,
      bound := hat.bound }

theorem Draft.Indexed.pointer?_of_lookup {d : Draft} (h : d.Indexed) {pointer : String}
    {target : NodeId} (htarget : d.locations.lookup pointer = some target) :
    d.pointer? target = some pointer :=
  h.pointer?_of_mem (mem_of_lookup htarget)

/-- What was read on demand is in the place that was asked for. -/
theorem Reads.pointer?_target {document : Json} {pointer : String} {value : Json} {d d' : Draft}
    {target : NodeId} (h : Reads document [.located pointer value] d [target] d') (hd : d.Indexed) :
    d'.pointer? target = some pointer :=
  (List.cons.inj (h.pointers hd)).1

/-- Following references keeps a draft sound, leaves no reference without a target, and moves no
node. -/
theorem Resolves.sound {document : Json} (hdistinct : document.DistinctKeys) {d d' : Draft}
    {demands : List String} (h : Resolves document d demands d') (hd : d.Sound document)
    (hawaited : d.AwaitedIn d.pending) :
    d'.Sound document ∧ d'.AwaitedIn [] ∧
      ∀ id pointer, d.pointer? id = some pointer → d'.pointer? id = some pointer := by
  induction h with
  | done hpending => exact ⟨hd, hpending ▸ hawaited, fun _ _ h => h⟩
  | @skip d d' id rest demands hpending hkind hrest ih =>
      apply ih (hd.setPending rest)
      intro i reference hunresolved
      have hmem := hawaited i reference hunresolved
      rw [hpending] at hmem
      apply (List.mem_cons.mp hmem).resolve_left
      rintro rfl
      rw [hunresolved] at hkind
      cases hkind
  | @known d d' id target rest demands reference pointer resolved hpending hkind hpointer hknown
      hrest ih =>
      have hplace := hd.indexed.pointer?_of_lookup hknown
      rw [hpending] at hawaited
      have hwaiting : ({ d with pending := rest } : Draft).AwaitedIn (id :: rest) := hawaited
      exact ih ((hd.setPending rest).bind hkind hpointer hplace) (hwaiting.bind hkind)
  | @demand d d₁ d' id target rest demands reference pointer resolved value hpending hkind
      hpointer hknown hvalue hreads hrest ih =>
      have hd₀ := hd.setPending rest
      have hgrows := hreads.grows
      have hid := Arena.lt_size_of_reference hkind
      rw [← hgrows.node_eq id hid] at hkind
      rw [hpending] at hawaited
      have hwaiting := hreads.awaitedIn hd₀.indexed [id] hawaited
      have hsound := hreads.sound hdistinct (by simpa [Part.Fits] using hvalue)
        (by simp [Part.pointer?]) hd₀
      have hplace := hreads.pointer?_target hd₀.indexed
      obtain ⟨hsound', hnone, hstays⟩ := ih (hsound.bind hkind hpointer hplace) (hwaiting.bind hkind)
      refine ⟨hsound', hnone, ?_⟩
      intro i place hi
      apply hstays i place
      rw [Draft.pointer?_bind, hgrows.pointer?_eq (hd.indexed.lt_of_pointer? hi)]
      exact hi

theorem Draft.indexed_empty : ({} : Draft).Indexed :=
  ⟨by simp, List.nodup_nil⟩

theorem Draft.sound_empty (document : Json) : ({} : Draft).Sound document where
  indexed := Draft.indexed_empty
  node id hid := absurd hid (Nat.not_lt_zero id)

theorem Draft.awaitedIn_empty (ids : List NodeId) : ({} : Draft).AwaitedIn ids := by
  intro id reference hunresolved
  exact absurd (Arena.lt_size_of_reference hunresolved) (Nat.not_lt_zero id)

namespace Schema

variable {document : Json} {s : Schema} {demands : List String} {d : Draft}

/-- The last draft of a run is sound, every reference in it has its target, and the root is in the
place of the whole document. -/
theorem ReadTo.sound (hdistinct : document.DistinctKeys) (h : s.ReadTo document demands d) :
    d.Sound document ∧ d.AwaitedIn [] ∧ d.pointer? s.root = some "" := by
  obtain ⟨d₀, hroot, hresolves, -⟩ := h
  have hempty := Draft.sound_empty document
  have hsound := hroot.sound hdistinct (by simp [Part.Fits]) (by simp [Part.pointer?]) hempty
  have hawaited := hroot.awaitedIn hempty.indexed [] (Draft.awaitedIn_empty _)
  obtain ⟨hd, hnone, hstays⟩ := hresolves.sound hdistinct hsound hawaited
  exact ⟨hd, hnone, hstays _ _ (hroot.pointer?_target hempty.indexed)⟩

theorem ReadTo.node_eq (h : s.ReadTo document demands d) (id : NodeId) :
    s.node id = d.nodes.node id := by
  obtain ⟨-, -, -, hnodes⟩ := h
  rw [Schema.node, hnodes]

/-- A schema is faithful to its document by the places in which its nodes were read. -/
theorem ReadTo.faithful (hdistinct : document.DistinctKeys) (h : s.ReadTo document demands d) :
    FaithfulBy document s d.pointer? := by
  obtain ⟨hd, hnone, hroot⟩ := h.sound hdistinct
  have hnode := h.node_eq
  obtain ⟨-, -, -, hnodes⟩ := h
  refine ⟨hroot, fun id hid pointer hplace => ?_, fun id hid hunplaced => ?_,
    fun id reference resolved href => ?_⟩
  · rw [hnodes] at hid
    rw [hnode]
    exact (hd.node id hid).located pointer hplace
  · rw [hnodes] at hid
    obtain ⟨huntyped, parent, pointer, members, hplace, hvalue, hitems, harray⟩ :=
      (hd.node id hid).unlocated hunplaced
    rw [hnode, hnodes]
    exact ⟨huntyped, parent, pointer, members, hd.indexed.lt_of_pointer? hplace, hplace, hvalue,
      hitems, by rw [hnode, harray]⟩
  · rw [hnode] at href
    cases resolved with
    | none => cases hnone id reference href
    | some target =>
        obtain ⟨pointer, hpointer, htarget⟩ :=
          (hd.node id (Arena.lt_size_of_reference href)).bound reference target href
        exact ⟨target, pointer, rfl, by rw [hnodes]; exact hd.indexed.lt_of_pointer? htarget,
          hpointer, htarget⟩

end Schema

/-- A document whose schema refers to itself and has an array without `items`. -/
def selfReferringDocument : Json :=
  .object [("properties", .object [("next", .object [("$ref", .string "#")]),
    ("tags", .object [("type", .string "array"), ("title", .string "Tags")])])]

def selfReferringSchema : Schema where
  nodes := #[{ kind := .reference "#" (some 3) }, { kind := .untyped },
    { title := some "Tags", kind := .array 1 },
    { kind := .object { properties := [("next", 0), ("tags", 2)] } }]
  root := 3

theorem selfReferringDocument_distinctKeys : selfReferringDocument.DistinctKeys := by
  decide

theorem read_selfReferringDocument :
    Schema.read selfReferringDocument = .ok selfReferringSchema := by
  cbv

/-- The schema that is read is well formed, whatever the references in it. -/
theorem Schema.read_wellFormed {document : Json} {s : Schema} (hdistinct : document.DistinctKeys)
    (h : Schema.read document = .ok s) : s.WellFormed := by
  obtain ⟨demands, d, hrun⟩ := Schema.read_steps h
  obtain ⟨hd, -, hroot⟩ := hrun.sound hdistinct
  have hnode := hrun.node_eq
  obtain ⟨-, -, -, hnodes⟩ := hrun
  refine ⟨by rw [hnodes]; exact hd.indexed.lt_of_pointer? hroot, fun id c hc => ?_,
    fun id reference target href => ?_⟩
  · rw [hnode] at hc
    rcases Nat.lt_or_ge id d.nodes.size with hlt | hle
    · exact (hd.node id hlt).children_lt c hc
    · rw [Arena.node_of_size_le hle] at hc
      cases hc
  · rw [hnode] at href
    obtain ⟨pointer, -, htarget⟩ :=
      (hd.node id (Arena.lt_size_of_reference href)).bound reference target href
    rw [hnodes]
    exact hd.indexed.lt_of_pointer? htarget

/-- Every reference of the schema that is read has a target. -/
theorem Schema.read_resolved {document : Json} {s : Schema} (hdistinct : document.DistinctKeys)
    (h : Schema.read document = .ok s) : s.Resolved := by
  obtain ⟨demands, d, hrun⟩ := Schema.read_steps h
  obtain ⟨-, hnone, -⟩ := hrun.sound hdistinct
  intro id reference href
  rw [hrun.node_eq] at href
  cases hnone id reference href

end SchemaBridge
