import SchemaBridge.Execution
import SchemaBridge.Proofs.AvroCycles
import SchemaBridge.Proofs.RepeatedReading
import SchemaBridge.Proofs.TextDocuments

/-!
No node of a schema that is read is dead. What is read on demand hangs on the reference that asked
for it, and a waiting reference loses no target when it gets one. Main statement: the root leads to
every node over parts and targets, and the value that an inspection of the document prints counts
each of them once by its kind and tells of each reference where it leads.
-/

namespace SchemaBridge

/-! ### Walks in a draft -/

namespace Draft

/-- The schema that the nodes of a draft make up so far. -/
def schemaAt (d : Draft) (root : NodeId) : Schema :=
  ⟨d.nodes, root⟩

/-- The root leads to every node of a draft. -/
def Live (d : Draft) (root : NodeId) : Prop :=
  ∀ id : Nat, id < d.nodes.size → (d.schemaAt root).Walks Link.every root id

/-- The nodes are different references that have no target yet. -/
structure Waits (d : Draft) (ids : List NodeId) : Prop where
  nodup : ids.Nodup
  unresolved : ∀ id ∈ ids, ∃ text, (d.nodes.node id).kind = .reference text none

end Draft

namespace Schema

variable {s s' : Schema} {link : Link} {id c : NodeId}

theorem Linked.congr (h : s.Linked link id c) (hnode : s'.node id = s.node id) :
    s'.Linked link id c := by
  cases h with
  | property hkind hmem => exact .property (by rw [hnode, hkind]) hmem
  | item hkind => exact .item (by rw [hnode, hkind])
  | element hkind hmem => exact .element (by rw [hnode, hkind]) hmem
  | branch hkind hmem => exact .branch (by rw [hnode, hkind]) hmem
  | target hkind => exact .target (by rw [hnode, hkind])

/-- A walk stays one where every node that it leaves stays as it is. -/
theorem Walks.congr {links : List Link} (h : s.Walks links id c)
    (hnode : ∀ link i c, s.Linked link i c → s'.node i = s.node i) : s'.Walks links id c := by
  refine Relation.ReflTransGen.mono ?_ _ _ h
  rintro i c ⟨link, hlink, hlinked⟩
  exact ⟨link, hlink, hlinked.congr (hnode link i c hlinked)⟩

/-- A node leads to each of its parts. -/
theorem goes_of_mem_children (h : c ∈ (s.node id).kind.children) : s.Goes Link.every id c := by
  cases hkind : (s.node id).kind with
  | array items =>
      rw [hkind] at h
      obtain rfl := List.mem_singleton.mp h
      exact (Linked.item hkind).goes (by decide)
  | tuple ids =>
      rw [hkind] at h
      exact (Linked.element hkind h).goes (by decide)
  | object shape =>
      rw [hkind] at h
      rcases List.mem_append.mp h with h | h
      · obtain ⟨⟨name, _⟩, hmem, rfl⟩ := List.mem_map.mp h
        exact (Linked.property hkind hmem).goes (by decide)
      · exact (Linked.branch hkind h).goes (by decide)
  | _ => rw [hkind] at h; cases h

end Schema

theorem Draft.Grows.walks {d d' : Draft} (h : d.Grows d') {root id c : NodeId}
    (hwalks : (d.schemaAt root).Walks Link.every id c) :
    (d'.schemaAt root).Walks Link.every id c :=
  hwalks.congr fun _ i _ hlinked => h.node_eq i hlinked.lt_size

/-! ### Reading -/

namespace Reads

variable {document : Json} {parts : List Part} {d d' : Draft} {ids : List NodeId}

/-- Every new node hangs on one of the nodes that are handed back. -/
theorem reached (h : Reads document parts d ids d') (root : NodeId) :
    ∀ id : Nat, d.nodes.size ≤ id → id < d'.nodes.size →
      ∃ top ∈ ids, (d'.schemaAt root).Walks Link.every top id := by
  induction h with
  | nil d => intro id hle hlt; omega
  | @bare d d' rest ids hrest ih =>
      intro id hle hlt
      rw [Draft.size_push] at ih
      rcases hle.eq_or_lt with rfl | hlt'
      · exact ⟨_, List.mem_cons_self, .refl⟩
      · obtain ⟨top, htop, hwalks⟩ := ih id hlt' hlt
        exact ⟨top, List.mem_cons_of_mem _ htop, hwalks⟩
  | @any d d' pointer rest ids hrest ih =>
      intro id hle hlt
      rw [Draft.size_place] at ih
      rcases hle.eq_or_lt with rfl | hlt'
      · exact ⟨_, List.mem_cons_self, .refl⟩
      · obtain ⟨top, htop, hwalks⟩ := ih id hlt' hlt
        exact ⟨top, List.mem_cons_of_mem _ htop, hwalks⟩
  | @object d d₁ d' pointer members title description outline inner rest innerIds ids kind
      _ _ houtline hkind hinner hrest ihinner ih =>
      intro id hle hlt
      rw [Draft.size_place] at ih
      rcases Nat.lt_trichotomy id d₁.nodes.size with hid | rfl | hid
      · obtain ⟨part, hpart, hwalks⟩ := ihinner id hle hid
        have hgrows := (d₁.grows_place pointer { title, description, kind }).trans hrest.grows
        have hnode : (d'.schemaAt root).node d₁.nodes.size = { title, description, kind } := by
          rw [Schema.node, Draft.schemaAt, hrest.grows.node_eq _ (by simp), Draft.node_place_self]
        have hgoes : (d'.schemaAt root).Goes Link.every d₁.nodes.size part := by
          apply Schema.goes_of_mem_children
          rw [hnode, hkind.children_eq (Outline.read_ok houtline)]
          exact hpart
        exact ⟨_, List.mem_cons_self, .head hgoes (hgrows.walks hwalks)⟩
      · exact ⟨_, List.mem_cons_self, .refl⟩
      · obtain ⟨top, htop, hwalks⟩ := ih id hid hlt
        exact ⟨top, List.mem_cons_of_mem _ htop, hwalks⟩

theorem live (h : Reads document parts d ids d') {root : NodeId} (hd : d.Live root)
    (htops : ∀ top ∈ ids, (d'.schemaAt root).Walks Link.every root top) : d'.Live root := by
  intro id hid
  rcases Nat.lt_or_ge id d.nodes.size with hlt | hle
  · exact h.grows.walks (hd id hlt)
  · obtain ⟨top, htop, hwalks⟩ := h.reached root id hle hid
    exact (htops top htop).trans hwalks

end Reads

theorem Draft.Waits.lt_size {d : Draft} {ids : List NodeId} (h : d.Waits ids) {id : Nat}
    (hid : id ∈ ids) : id < d.nodes.size := by
  obtain ⟨text, hkind⟩ := h.unresolved id hid
  exact Arena.lt_size_of_reference hkind

theorem Draft.Waits.grows {d d' : Draft} {ids : List NodeId} (h : d.Waits ids)
    (hgrows : d.Grows d') : d'.Waits ids where
  nodup := h.nodup
  unresolved id hid := by
    rw [hgrows.node_eq id (h.lt_size hid)]
    exact h.unresolved id hid

/-- A new reference waits behind the ones that are served at the moment. -/
theorem Draft.Waits.place {d : Draft} {served : List NodeId} (h : d.Waits (served ++ d.pending))
    (pointer : String) {n : Node}
    (hn : n.kind.isReference = true → ∃ text, n.kind = .reference text none) :
    (d.place pointer n).2.Waits (served ++ (d.place pointer n).2.pending) := by
  have hgrown := h.grows (d.grows_place pointer n)
  by_cases href : n.kind.isReference = true
  · have hpending : (d.place pointer n).2.pending = d.nodes.size :: d.pending := if_pos href
    rw [hpending]
    refine ⟨?_, fun id hid => ?_⟩
    · rw [List.nodup_middle, List.nodup_cons]
      exact ⟨fun hmem => Nat.lt_irrefl _ (h.lt_size hmem), h.nodup⟩
    · rcases List.mem_cons.mp (List.perm_middle.mem_iff.mp hid) with rfl | hid
      · rw [Draft.node_place_self]
        exact hn href
      · exact hgrown.unresolved id hid
  · have hpending : (d.place pointer n).2.pending = d.pending := if_neg href
    rw [hpending]
    exact hgrown

theorem Reads.waits {document : Json} {parts : List Part} {d d' : Draft} {ids : List NodeId}
    (h : Reads document parts d ids d') (served : List NodeId)
    (hd : d.Waits (served ++ d.pending)) : d'.Waits (served ++ d'.pending) := by
  induction h with
  | nil => exact hd
  | @bare d _ _ _ _ ih => exact ih (hd.grows (d.grows_push _))
  | any _ ih => exact ih (hd.place _ nofun)
  | @object _ d₁ _ _ _ _ _ _ _ _ _ _ kind _ _ houtline hkind _ _ ihinner ih =>
      refine ih ((ihinner hd).place _ fun href => ?_)
      cases kind with
      | reference text resolved =>
          obtain rfl := hkind.reference_unresolved (Outline.read_ok houtline)
          exact ⟨text, rfl⟩
      | _ => cases href

/-! ### Giving a reference its target -/

namespace Draft

variable {d : Draft} {id target root : NodeId} {rest : List NodeId} {text : String}

theorem Waits.bind (h : d.Waits (id :: rest)) (target : NodeId) :
    (d.bind id target).Waits rest where
  nodup := (List.nodup_cons.mp h.nodup).2
  unresolved i hi := by
    have hne : i ≠ id := fun heq => (List.nodup_cons.mp h.nodup).1 (heq ▸ hi)
    rw [node_bind_of_ne hne]
    exact h.unresolved i (List.mem_cons_of_mem _ hi)

/-- A reference without a target is on no walk but at its end, so binding it breaks none. -/
theorem walks_bind (hkind : (d.nodes.node id).kind = .reference text none) {i c : NodeId}
    (hwalks : (d.schemaAt root).Walks Link.every i c) (target : NodeId) :
    ((d.bind id target).schemaAt root).Walks Link.every i c := by
  refine hwalks.congr fun link i c hlinked => ?_
  have hne : i ≠ id := by
    rintro rfl
    have hmem := hlinked.mem_ends
    rw [show ((d.schemaAt root).node i).kind = _ from hkind] at hmem
    cases link <;> cases hmem
  exact node_bind_of_ne hne target

theorem goes_bind (hkind : (d.nodes.node id).kind = .reference text none) (target : NodeId) :
    ((d.bind id target).schemaAt root).Goes Link.every id target := by
  have hbound : (((d.bind id target).schemaAt root).node id).kind =
      .reference text (some target) := by
    rw [Schema.node, schemaAt, node_bind_self hkind]
  exact (Schema.Linked.target hbound).goes (by decide)

theorem Live.bind (h : d.Live root) (hkind : (d.nodes.node id).kind = .reference text none)
    (target : NodeId) : (d.bind id target).Live root := by
  intro i hi
  rw [size_bind] at hi
  exact walks_bind hkind (h i hi) target

/-- What was read on demand is reached over the reference that asked for it. -/
theorem Live.demand {document : Json} {d₁ : Draft} {pointer : String} {value : Json}
    (h : d.Live root) (hkind : (d.nodes.node id).kind = .reference text none)
    (hreads : Reads document [.located pointer value] d [target] d₁) :
    (d₁.bind id target).Live root := by
  have hid := Arena.lt_size_of_reference hkind
  have hkind₁ : (d₁.nodes.node id).kind = .reference text none := by
    rw [hreads.grows.node_eq id hid, hkind]
  intro i hi
  rw [size_bind] at hi
  rcases Nat.lt_or_ge i d.nodes.size with hlt | hle
  · exact walks_bind hkind₁ (hreads.grows.walks (h i hlt)) target
  · obtain ⟨top, htop, hwalks⟩ := hreads.reached root i hle hi
    obtain rfl := List.mem_singleton.mp htop
    have hreference := walks_bind hkind₁ (hreads.grows.walks (h id hid)) top
    exact (hreference.tail (goes_bind hkind₁ top)).trans (walks_bind hkind₁ hwalks top)

end Draft

theorem Resolves.live {document : Json} {d d' : Draft} {demands : List String} {root : NodeId}
    (h : Resolves document d demands d') (hd : d.Live root) (hwaits : d.Waits d.pending) :
    d'.Live root := by
  induction h with
  | done => exact hd
  | @skip d _ id rest _ hpending hkind _ ih =>
      rw [hpending] at hwaits
      exact ih hd ⟨(List.nodup_cons.mp hwaits.nodup).2,
        fun i hi => hwaits.unresolved i (List.mem_cons_of_mem _ hi)⟩
  | @known d _ id target rest _ _ _ _ hpending _ _ _ _ ih =>
      rw [hpending] at hwaits
      have hwaits₀ : ({ d with pending := rest } : Draft).Waits (id :: rest) :=
        ⟨hwaits.nodup, hwaits.unresolved⟩
      obtain ⟨text, hkind⟩ := hwaits₀.unresolved id List.mem_cons_self
      have hlive₀ : ({ d with pending := rest } : Draft).Live root := hd
      exact ih (hlive₀.bind hkind target) (hwaits₀.bind target)
  | @demand d d₁ _ id target rest _ _ _ _ _ hpending _ _ _ _ hreads _ ih =>
      rw [hpending] at hwaits
      have hwaits₀ : ({ d with pending := rest } : Draft).Waits ([id] ++ rest) :=
        ⟨hwaits.nodup, hwaits.unresolved⟩
      obtain ⟨text, hkind⟩ := hwaits₀.unresolved id List.mem_cons_self
      have hlive₀ : ({ d with pending := rest } : Draft).Live root := hd
      exact ih (hlive₀.demand hkind hreads) ((hreads.waits [id] hwaits₀).bind target)

namespace Schema

/-- The root leads to every node, over parts and the targets of references. -/
def Live (s : Schema) : Prop :=
  ∀ id : Nat, id < s.nodes.size → s.Walks Link.every s.root id

theorem ReadTo.live {document : Json} {s : Schema} {demands : List String} {d : Draft}
    (h : s.ReadTo document demands d) : s.Live := by
  obtain ⟨d₀, hroot, hresolves, hnodes⟩ := h
  have hlive₀ : d₀.Live s.root := by
    refine hroot.live (fun id hid => absurd hid (Nat.not_lt_zero id)) fun top htop => ?_
    rw [List.mem_singleton.mp htop]
  have hlive := hresolves.live hlive₀ (hroot.waits [] ⟨List.nodup_nil, nofun⟩)
  intro id hid
  rw [hnodes] at hid
  exact (hlive id hid).congr fun _ i _ _ => by rw [Schema.node, Schema.node, hnodes]; rfl

end Schema

/-! ### Counting kinds -/

theorem Kind.name_eq_reference_iff {kind : Kind} :
    kind.name = "reference" ↔ kind.isReference = true := by
  cases kind with
  | primitive type => cases type <;> decide
  | reference => exact ⟨fun _ => rfl, fun _ => rfl⟩
  | _ => exact ⟨fun h => absurd h (by simp [name]), nofun⟩

/-- An entry that is put takes the place of the value before it in the sum of the values. -/
theorem Entries.sum_put (key : String) (value : Nat) (entries : List (String × Nat)) :
    ((put key value entries).map Prod.snd).sum + (entries.lookup key).getD 0 =
      (entries.map Prod.snd).sum + value := by
  induction entries with
  | nil => simp [put]
  | cons entry rest ih =>
      obtain ⟨k, v⟩ := entry
      by_cases hkey : k = key
      · subst hkey
        simp [put]
        omega
      · have hne : (key == k) = false := beq_eq_false_iff_ne.mpr (Ne.symm hkey)
        simp only [put, beq_eq_false_iff_ne.mpr hkey, List.lookup_cons, hne, List.map_cons,
          List.sum_cons, Bool.false_eq_true, if_false]
        omega

namespace Summary

variable {kinds : List (String × Nat)}

theorem sum_foldl_count (names : List String) (kinds : List (String × Nat)) :
    ((names.foldl count kinds).map Prod.snd).sum = (kinds.map Prod.snd).sum + names.length := by
  induction names generalizing kinds with
  | nil => rfl
  | cons name rest ih =>
      have hput := Entries.sum_put name ((kinds.lookup name).getD 0 + 1) kinds
      rw [List.foldl_cons, ih, count, List.length_cons]
      omega

theorem lookup_foldl_count (names : List String) (kinds : List (String × Nat)) (kind : String) :
    ((names.foldl count kinds).lookup kind).getD 0 =
      (kinds.lookup kind).getD 0 + names.count kind := by
  induction names generalizing kinds with
  | nil => rfl
  | cons name rest ih =>
      rw [List.foldl_cons, ih, count, Entries.lookup_put, List.count_cons]
      by_cases hkind : kind = name
      · subst hkind
        simp
        omega
      · have hne : (name == kind) = false := beq_eq_false_iff_ne.mpr (Ne.symm hkind)
        simp [beq_eq_false_iff_ne.mpr hkind, hne]

theorem keys_foldl_count (names : List String) (hkinds : (kinds.map Prod.fst).Nodup) :
    ((names.foldl count kinds).map Prod.fst).Nodup := by
  induction names generalizing kinds with
  | nil => exact hkinds
  | cons name rest ih => exact ih (Entries.keys_put_nodup hkinds)

theorem pos_foldl_count (names : List String) (hkinds : ∀ e ∈ kinds, 0 < e.2) :
    ∀ e ∈ names.foldl count kinds, 0 < e.2 := by
  induction names generalizing kinds with
  | nil => exact hkinds
  | cons name rest ih =>
      refine ih fun e he => ?_
      rcases Entries.mem_put he with rfl | he
      · exact Nat.succ_pos _
      · exact hkinds e he

/-- The counts of names tell exactly the names that occur, and how often. -/
theorem mem_foldl_count_iff {names : List String} {kind : String} {n : Nat} :
    (kind, n) ∈ names.foldl count [] ↔ 0 < n ∧ n = names.count kind := by
  have hlookup := lookup_foldl_count names [] kind
  rw [List.lookup_nil, Option.getD_none, Nat.zero_add] at hlookup
  constructor
  · intro hmem
    have hkeys := @keys_foldl_count [] names List.nodup_nil
    rw [lookup_of_mem hkeys hmem] at hlookup
    exact ⟨@pos_foldl_count [] names nofun _ hmem, hlookup⟩
  · rintro ⟨hpos, rfl⟩
    cases hfound : (names.foldl count []).lookup kind with
    | none =>
        rw [hfound] at hlookup
        exact absurd hlookup hpos.ne
    | some m =>
        rw [hfound] at hlookup
        rw [← hlookup]
        exact mem_of_lookup hfound

end Summary

namespace Schema

theorem toList_nodes (s : Schema) : s.nodes.toList = (List.range s.nodes.size).map s.node := by
  apply List.ext_getElem (by simp)
  intro i hi _
  rw [Array.length_toList] at hi
  simp [Schema.node, Arena.node, Array.getD, hi]

/-- The nodes of a kind, by the name of the kind. -/
def ofKind (s : Schema) (kind : String) : List NodeId :=
  (List.range s.nodes.size).filter fun id => (s.node id).kind.name == kind

/-- A value tells of a node that it is a reference: its number, its text, and the number of the node
that it leads to. -/
def ReferenceToldBy (s : Schema) (id : NodeId) (v : Json) : Prop :=
  ∃ (text : String) (target : Nat), target < s.nodes.size ∧
    (s.node id).kind = .reference text (some target) ∧
    v = .object [("node", .string (NodeId.text id)), ("target", .string text),
      ("resolved", .string (NodeId.text target))]

/-- A value tells of every node of a schema once: after the root and the number of nodes come the
counts of the kinds, which are those of the nodes of each kind and add up to the number of nodes,
and then the references by their numbers. -/
inductive ToldBy (s : Schema) : Json → Prop
  | intro {kinds : List (String × Nat)} {references : List Json}
      (sum : (kinds.map Prod.snd).sum = s.nodes.size)
      (keys : (kinds.map Prod.fst).Nodup)
      (counts : ∀ kind n, (kind, n) ∈ kinds ↔ 0 < n ∧ n = (s.ofKind kind).length)
      (entries : List.Forall₂ s.ReferenceToldBy (s.ofKind "reference") references) :
      s.ToldBy (.object [
        ("root", .object [("title", .stringOrNull (s.node s.root).title),
          ("kind", .string (s.node s.root).kind.name)]),
        ("nodes", .ofNat s.nodes.size),
        ("kinds", .object (kinds.map fun (kind, n) => (kind, .ofNat n))),
        ("references", .array references)])

theorem length_ofKind (s : Schema) (kind : String) :
    (s.ofKind kind).length = (s.nodes.toList.map fun node => node.kind.name).count kind := by
  rw [toList_nodes, List.map_map, List.count, List.countP_map, ofKind,
    ← List.countP_eq_length_filter]
  rfl

/-- Exactly the references have an entry, which tells of them. -/
theorem forall₂_entries {s : Schema} (hs : s.WellFormed) (hresolved : s.Resolved)
    (ids : List NodeId) :
    List.Forall₂ s.ReferenceToldBy (ids.filter fun id => (s.node id).kind.name == "reference")
      ((ids.filterMap fun id => Summary.entry? id (s.node id)).map ReferenceEntry.toJson) := by
  induction ids with
  | nil => exact .nil
  | cons id rest ih =>
      cases hreference : (s.node id).kind.isReference with
      | true =>
          have hname := Kind.name_eq_reference_iff.mpr hreference
          cases hkind : (s.node id).kind with
          | reference text resolved =>
              cases resolved with
              | none => exact (hresolved id text hkind).elim
              | some target =>
                  have hentry : Summary.entry? id (s.node id) = some ⟨id, text, some target⟩ := by
                    rw [Summary.entry?, hkind]
                  rw [List.filter_cons_of_pos (by simpa using hname), List.filterMap_cons, hentry]
                  exact .cons ⟨text, target, hs.target_lt id text target hkind, hkind, rfl⟩ ih
          | _ => rw [hkind] at hreference; cases hreference
      | false =>
          have hname : (s.node id).kind.name ≠ "reference" := by
            rw [ne_eq, Kind.name_eq_reference_iff, hreference]
            exact Bool.false_ne_true
          have hentry : Summary.entry? id (s.node id) = none := by
            unfold Summary.entry?
            split
            · rename_i hkind
              rw [hkind] at hreference
              cases hreference
            · rfl
          rw [List.filter_cons_of_neg (by simpa using hname), List.filterMap_cons, hentry]
          exact ih

theorem toldBy_summary {s : Schema} (hs : s.WellFormed) (hresolved : s.Resolved) :
    s.ToldBy s.summary.toJson := by
  refine ToldBy.intro ?_ ?_ (fun kind n => ?_) (forall₂_entries hs hresolved _)
  · rw [summary, Summary.sum_foldl_count, List.length_map, Array.length_toList]
    exact Nat.zero_add _
  · exact Summary.keys_foldl_count _ List.nodup_nil
  · rw [length_ofKind]
    exact Summary.mem_foldl_count_iff

end Schema

/-- The inspection of a document prints a value, wherever the document is read from. -/
structure Json.InspectedAs (document v : Json) : Prop where
  yaml : ∀ (w : Wording) (read : Sources) path, read.document path = .ok document →
    (Command.inspect path .yaml).effect w read = .ok (.print v.yaml)
  json : ∀ (w : Wording) (read : Sources) path, read.document path = .ok document →
    (Command.inspect path .json).effect w read = .ok (.print (v.pretty 0 ++ "\n"))

namespace Schema

theorem effect_inspect {document : Json} {s : Schema} (h : Schema.read document = .ok s)
    {w : Wording} {read : Sources} {path : String} (hpath : read.document path = .ok document)
    (format : SummaryFormat) :
    (Command.inspect path format).effect w read = .ok (.print (s.summary.text format)) := by
  simp only [Command.effect, Sources.schema, hpath, h, bind, Except.bind, Except.mapError, pure,
    Except.pure]

/-- No node of a schema that is read is dead: the root leads to each of them over parts and the
targets of references. So every node that the inspection of the document counts is a part of what
the schema says, and the value that it prints tells of each of them. -/
theorem read_live {document : Json} {s : Schema} (hdistinct : document.DistinctKeys)
    (h : Schema.read document = .ok s) :
    s.Live ∧ s.ToldBy s.summary.toJson ∧ document.InspectedAs s.summary.toJson := by
  obtain ⟨demands, d, hrun⟩ := Schema.read_steps h
  refine ⟨hrun.live, toldBy_summary (read_wellFormed hdistinct h) (read_resolved hdistinct h), ?_⟩
  exact ⟨fun _ _ _ hpath => effect_inspect h hpath .yaml,
    fun _ _ _ hpath => effect_inspect h hpath .json⟩

theorem read_live_nestedDemands : nestedDemandsDocument.DistinctKeys ∧
    Schema.read nestedDemandsDocument = .ok nestedDemandsSchema ∧ nestedDemandsSchema.Live ∧
    nestedDemandsSchema.ToldBy nestedDemandsSchema.summary.toJson ∧
    nestedDemandsDocument.InspectedAs nestedDemandsSchema.summary.toJson :=
  ⟨nestedDemandsDocument_distinctKeys, read_nestedDemandsDocument,
    read_live nestedDemandsDocument_distinctKeys read_nestedDemandsDocument⟩

example : nestedDemandsSchema.summary.kinds = [("reference", 3), ("object", 2), ("string", 2)] := by
  decide

end Schema

end SchemaBridge
