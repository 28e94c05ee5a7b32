import SchemaBridge.Proofs.FaithfulReading
import SchemaBridge.Proofs.KeywordCompleteness
import SchemaBridge.Proofs.ReferenceChains

/-!
The locations of a document that its schema is read from: the root, the parts that the keywords of a
location ask for, and the targets of references. Nothing is said here about the order in which they
are read. Main statement: in a schema that is read, every such location has a node, it is spelled
as its keywords must be, and no chain of references from it goes on without end.
-/

namespace SchemaBridge

/-- A reference within the document is a number sign, alone or before a slash. -/
theorem Pointer.ofReference?_isSome_iff {reference : String} :
    (∃ pointer, Pointer.ofReference? reference = some pointer) ↔
      reference = "#" ∨ ∃ rest, reference = "#/" ++ rest := by
  have hself : reference = String.ofList reference.toList := String.ofList_toList.symm
  unfold Pointer.ofReference?
  split
  · rename_i hlist
    rw [hlist] at hself
    exact ⟨fun _ => .inl hself, fun _ => ⟨_, rfl⟩⟩
  · rename_i rest hlist
    rw [hlist] at hself
    refine ⟨fun _ => .inr ⟨String.ofList rest, ?_⟩, fun _ => ⟨_, rfl⟩⟩
    rw [hself, ← String.toList_inj, String.toList_append]
    simp only [String.toList_ofList]
    rfl
  · rename_i hbare hslash
    constructor
    · rintro ⟨_, ⟨⟩⟩
    · rintro (rfl | ⟨rest, rfl⟩)
      · exact (hbare rfl).elim
      · exact (hslash rest.toList (by rw [String.toList_append]; rfl)).elim

namespace Keyword

/-- A keyword that is absent or holds a text. -/
def HoldsText (members : Members) (keyword : String) : Prop :=
  members.lookup keyword = none ∨ ∃ text, members.lookup keyword = some (.string text)

end Keyword

namespace Outline

/-- What the keywords beside an outline have to be like: those of an object hold what they should,
and name nothing as present that is no property; a reference stays within the document. -/
def WellShaped (members : Members) : Outline → Prop
  | .object => ∃ (named : Members) (names : List String) (values : List Json),
      Keyword.HoldsMembers members "properties" named ∧
      Keyword.HoldsList members "required" (names.map .string) ∧
      (∀ name ∈ names, name ∈ named.map Prod.fst) ∧ Keyword.HoldsList members "allOf" values
  | .leaf (.reference reference _) => reference = "#" ∨ ∃ rest, reference = "#/" ++ rest
  | _ => True

/-- The pointers to the parts that an outline asks for. -/
inductive HasPart (members : Members) (pointer : String) : Outline → String → Prop
  | property {named : Members} {name : String}
      (hnamed : members.lookup "properties" = some (.object named))
      (hname : name ∈ named.map Prod.fst) :
      HasPart members pointer .object (Pointer.child (Pointer.child pointer "properties") name)
  | branch {values : List Json} {index : Nat}
      (hvalues : members.lookup "allOf" = some (.array values)) (hindex : index < values.length) :
      HasPart members pointer .object (Pointer.element (Pointer.child pointer "allOf") index)
  | element {values : List Json} {index : Nat}
      (hvalues : members.lookup "items" = some (.array values)) (hindex : index < values.length) :
      HasPart members pointer .array (Pointer.element (Pointer.child pointer "items") index)
  | items {items : Json} (hitems : members.lookup "items" = some items)
      (hlist : ∀ values, items ≠ .array values) :
      HasPart members pointer .array (Pointer.child pointer "items")

end Outline

/-- A value spells a schema, as far as its own keywords say. -/
inductive SpellsSchema (document : Json) : Json → Prop
  | any : SpellsSchema document (.bool true)
  | object {members : Members} {outline : Outline} (htitle : Keyword.HoldsText members "title")
      (hdescription : Keyword.HoldsText members "description")
      (houtline : Outlines document members outline) (hshape : outline.WellShaped members) :
      SpellsSchema document (.object members)

/-- The location at a pointer refers to another one. -/
def LinksTo (document : Json) (pointer target : String) : Prop :=
  ∃ members reference, document.at? pointer = some (.object members) ∧
    members.lookup "$ref" = some (.string reference) ∧
    Pointer.ofReference? reference = some target

/-- The locations that a schema is read from. -/
inductive Reach (document : Json) : String → Prop
  | root : Reach document ""
  | part {pointer part : String} {members : Members} {outline : Outline}
      (hreach : Reach document pointer) (hvalue : document.at? pointer = some (.object members))
      (houtline : Outlines document members outline)
      (hpart : outline.HasPart members pointer part) : Reach document part
  | target {pointer target : String} (hreach : Reach document pointer)
      (hlink : LinksTo document pointer target) : Reach document target

/-- A chain of references that never comes to a location without one. -/
def EndlessChain (document : Json) (chain : Nat → String) : Prop :=
  ∀ n, LinksTo document (chain n) (chain (n + 1))

/-- Only a reference has the keyword of one. -/
theorem Outlines.eq_reference {document : Json} {members : Members} {outline : Outline}
    {value : Json} (h : Outlines document members outline)
    (href : members.lookup "$ref" = some value) :
    ∃ reference, value = .string reference ∧ outline = .leaf (.reference reference none) := by
  have hlacks : ∀ keywords, "$ref" ∈ keywords → ¬Keyword.Lacks members keywords := by
    intro keywords hmem hlacks
    rw [hlacks _ hmem] at href
    cases href
  cases h with
  | reference href' hothers =>
      rw [href] at href'
      cases href'
      exact ⟨_, rfl, rfl⟩
  | enumeration _ _ hothers => exact (hlacks _ (by decide) hothers).elim
  | combinator hothers => exact (hlacks _ (by decide) hothers).elim
  | several hothers => exact (hlacks _ (by decide) hothers).elim
  | primitive hothers => exact (hlacks _ (by decide) hothers).elim
  | object hothers => exact (hlacks _ (by decide) hothers).elim
  | array hothers => exact (hlacks _ (by decide) hothers).elim
  | impliedObject hothers => exact (hlacks _ (by decide) hothers).elim
  | impliedArray hothers => exact (hlacks _ (by decide) hothers).elim
  | untyped hothers => exact (hlacks _ (by decide) hothers).elim

/-! ### The nodes of reached locations -/

theorem getElem?_elementPointers (base : String) {count index : Nat} (hindex : index < count) :
    (elementPointers base count)[index]? = some (some (Pointer.element base index)) := by
  rw [elementPointers, List.getElem?_map, List.getElem?_range hindex]
  rfl

/-- A part of a list of nodes that are in the places of list elements. -/
theorem exists_of_map_eq_elementPointers {ids : List NodeId} {place : NodeId → Option String}
    {base : String} {count index : Nat} (hids : ids.map place = elementPointers base count)
    (hindex : index < count) : ∃ c ∈ ids, place c = some (Pointer.element base index) := by
  have hget := getElem?_elementPointers base hindex
  rw [← hids, List.getElem?_map, Option.map_eq_some_iff] at hget
  obtain ⟨c, hc, hplace⟩ := hget
  exact ⟨c, List.mem_of_getElem? hc, hplace⟩

/-- A part that the outline of an object asks for is a part of its node. -/
theorem Spells.exists_part {document : Json} {place : NodeId → Option String} {pointer : String}
    {members : Members} {kind : Kind} {outline : Outline} {part : String}
    (hwithin : document.Within (.object members))
    (h : Spells document place pointer members kind) (houtline : Outlines document members outline)
    (hpart : outline.HasPart members pointer part) :
    ∃ c ∈ kind.children, place c = some part := by
  cases h with
  | reference houtline' =>
      rw [houtline.unique hwithin houtline'] at hpart
      cases hpart
  | leaf houtline' =>
      rw [houtline.unique hwithin houtline'] at hpart
      cases hpart
  | @object named values names shape houtline' hnamed hnames hvalues hproperties hrequired hallOf =>
      rw [houtline.unique hwithin houtline'] at hpart
      cases hpart with
      | @property named' name hlookup hname =>
          rw [hnamed.eq hlookup] at hname
          obtain ⟨m, hm, rfl⟩ := List.mem_map.mp hname
          have hmem := List.mem_map_of_mem (f := fun m : String × Json =>
            (m.1, some (Pointer.child (Pointer.child pointer "properties") m.1))) hm
          rw [← hproperties] at hmem
          obtain ⟨p, hp, heq⟩ := List.mem_map.mp hmem
          obtain ⟨-, hplace⟩ := Prod.mk.inj heq
          exact ⟨p.2, List.mem_append_left _ (List.mem_map_of_mem hp), hplace⟩
      | branch hlookup hindex =>
          rw [hvalues.eq hlookup] at hindex
          obtain ⟨c, hc, hplace⟩ := exists_of_map_eq_elementPointers hallOf hindex
          exact ⟨c, List.mem_append_right _ hc, hplace⟩
  | bareArray houtline' hitems =>
      rw [houtline.unique hwithin houtline'] at hpart
      cases hpart with
      | element hlookup => rw [hitems] at hlookup; cases hlookup
      | items hlookup => rw [hitems] at hlookup; cases hlookup
  | tuple houtline' hitems hplaces =>
      rw [houtline.unique hwithin houtline'] at hpart
      cases hpart with
      | element hlookup hindex =>
          rw [hitems] at hlookup
          cases hlookup
          exact exists_of_map_eq_elementPointers hplaces hindex
      | items hlookup hlist =>
          rw [hitems] at hlookup
          cases hlookup
          exact (hlist _ rfl).elim
  | array houtline' hitems hlist hplace =>
      rw [houtline.unique hwithin houtline'] at hpart
      cases hpart with
      | element hlookup =>
          rw [hitems] at hlookup
          cases hlookup
          exact (hlist _ rfl).elim
      | items => exact ⟨_, List.mem_singleton_self _, hplace⟩

section

variable {document : Json} {s : Schema} {place : NodeId → Option String}

theorem FaithfulBy.spells (h : FaithfulBy document s place) {id : Nat} {pointer : String}
    {members : Members} (hid : id < s.nodes.size) (hplace : place id = some pointer)
    (hvalue : document.at? pointer = some (.object members)) :
    Spells document place pointer members (s.node id).kind := by
  obtain ⟨value, hat, hdescribes⟩ := h.located id hid pointer hplace
  rw [hvalue] at hat
  cases hat
  cases hdescribes with
  | object _ _ hkind => exact hkind

/-- A node at a location that refers to another one leads to the node there. -/
theorem FaithfulBy.link (h : FaithfulBy document s place) {id : Nat} {pointer target : String}
    (hid : id < s.nodes.size) (hplace : place id = some pointer)
    (hlink : LinksTo document pointer target) :
    ∃ reference next, (s.node id).kind = .reference reference (some next) ∧
      next < s.nodes.size ∧ place next = some target := by
  obtain ⟨members, reference, hvalue, href, htarget⟩ := hlink
  have hspells := h.spells hid hplace hvalue
  generalize hkind : (s.node id).kind = kind at hspells
  have hlink : ∀ resolved, (s.node id).kind = .reference reference resolved →
      ∃ reference next, kind = .reference reference (some next) ∧
        next < s.nodes.size ∧ place next = some target := by
    intro resolved hresolved
    obtain ⟨next, pointer', rfl, hnext, hpointer', hplace'⟩ := h.reference id _ _ hresolved
    rw [htarget] at hpointer'
    cases hpointer'
    exact ⟨reference, next, hkind.symm.trans hresolved, hnext, hplace'⟩
  cases hspells with
  | reference houtline =>
      obtain ⟨_, ⟨⟩, heq⟩ := houtline.eq_reference href
      cases heq
      exact hlink _ hkind
  | leaf houtline hnone =>
      obtain ⟨_, -, heq⟩ := houtline.eq_reference href
      cases heq
      cases hnone
  | object houtline => obtain ⟨_, -, heq⟩ := houtline.eq_reference href; cases heq
  | bareArray houtline => obtain ⟨_, -, heq⟩ := houtline.eq_reference href; cases heq
  | tuple houtline => obtain ⟨_, -, heq⟩ := houtline.eq_reference href; cases heq
  | array houtline => obtain ⟨_, -, heq⟩ := houtline.eq_reference href; cases heq

/-- Every location that is reached has a node. -/
theorem FaithfulBy.exists_node (h : FaithfulBy document s place) (hs : s.WellFormed)
    {pointer : String} (hreach : Reach document pointer) :
    ∃ id : Nat, id < s.nodes.size ∧ place id = some pointer := by
  induction hreach with
  | root => exact ⟨s.root, hs.root_lt, h.root⟩
  | part _ hvalue houtline hpart ih =>
      obtain ⟨id, hid, hplace⟩ := ih
      have hspells := h.spells hid hplace hvalue
      obtain ⟨c, hc, hplace'⟩ := hspells.exists_part (Json.within_of_at? hvalue) houtline hpart
      exact ⟨c, (show c < id from hs.child_lt id c hc).trans hid, hplace'⟩
  | target _ hlink ih =>
      obtain ⟨id, hid, hplace⟩ := ih
      obtain ⟨_, next, -, hnext, hplace'⟩ := h.link hid hplace hlink
      exact ⟨next, hnext, hplace'⟩

end

/-! ### Names that must be present -/

theorem lookup_ne_none_iff {α : Type} {entries : List (String × α)} {key : String} :
    entries.lookup key ≠ none ↔ key ∈ entries.map Prod.fst := by
  rw [ne_eq, List.lookup_eq_none_iff, List.mem_map]
  push Not
  constructor
  · rintro ⟨entry, hentry, heq⟩
    exact ⟨entry, hentry, (by simpa using heq : key = entry.1).symm⟩
  · rintro ⟨entry, hentry, rfl⟩
    exact ⟨entry, hentry, by simp⟩

namespace Reader

theorem requiredNames_names_iff {pointer : String} {properties : List (String × NodeId)}
    {names known : List String} :
    (∃ found, requiredNames pointer properties (names.map .string) known = .ok found) ↔
      ∀ name ∈ names, name ∈ properties.map Prod.fst := by
  induction names generalizing known with
  | nil => exact ⟨by simp, fun _ => ⟨known, rfl⟩⟩
  | cons name rest ih =>
      rw [List.map_cons, requiredNames, List.forall_mem_cons, ← lookup_ne_none_iff]
      cases properties.lookup name with
      | none => simp
      | some id => simpa using ih

/-- The names that must be present are read exactly if all of them are properties. -/
theorem required_iff {members : Members} {pointer : String} {properties : List (String × NodeId)}
    {names : List String} (hnames : Keyword.HoldsList members "required" (names.map .string)) :
    (∃ found, required members pointer properties = .ok found) ↔
      ∀ name ∈ names, name ∈ properties.map Prod.fst := by
  unfold required
  rcases hnames with hlookup | ⟨hlookup, hnil⟩
  · rw [hlookup]
    exact requiredNames_names_iff
  · rw [hlookup]
    obtain rfl := List.map_eq_nil_iff.mp hnil
    simp

end Reader

/-- The names that an object must have are names of its properties. -/
def Kind.DeclaresRequired (kind : Kind) : Prop :=
  ∀ shape, kind = .object shape → ∀ name ∈ shape.required, name ∈ shape.properties.map Prod.fst

theorem Assembles.declaresRequired {document : Json} {members : Members} {pointer : String}
    {outline : Outline} {parts : List Part} {ids : List NodeId} {kind : Kind}
    (houtline : Outlines document members outline)
    (h : Assembles members pointer outline parts ids kind) : kind.DeclaresRequired := by
  intro shape hshape
  cases h with
  | leaf => cases houtline <;> cases hshape
  | object _ _ _ hrequired =>
      cases hshape
      obtain ⟨names, hnames, rfl⟩ := Reader.required_ok hrequired
      intro name hname
      exact (Reader.required_iff hnames).mp ⟨_, hrequired⟩ name (List.mem_eraseDups.mp hname)
  | _ => cases hshape

theorem Reads.declaresRequired {document : Json} {parts : List Part} {d d' : Draft}
    {ids : List NodeId} (h : Reads document parts d ids d') (hd : d.Indexed)
    (hold : ∀ id : Nat, (d.nodes.node id).kind.DeclaresRequired) :
    ∀ id : Nat, (d'.nodes.node id).kind.DeclaresRequired := by
  intro id
  rcases Nat.lt_or_ge id d.nodes.size with hlt | hle
  · rw [h.grows.node_eq id hlt]
    exact hold id
  · rcases Nat.lt_or_ge id d'.nodes.size with hlt' | hle'
    · obtain ⟨part, -, hrecord⟩ :=
        h.recorded Part.handsDown_true hd (fun _ _ => trivial) id hle hlt'
      cases hrecord with
      | bare _ hnode => rw [hnode]; rintro _ ⟨⟩
      | any _ hnode => rw [hnode]; rintro _ ⟨⟩
      | object _ _ _ houtline hkind _ _ hnode =>
          rw [hnode]
          exact hkind.declaresRequired houtline
    · rw [Arena.node_of_size_le hle']
      rintro _ ⟨⟩

theorem Draft.declaresRequired_bind {d : Draft} {id target : NodeId} {reference : String}
    {resolved : Option NodeId} (hkind : (d.nodes.node id).kind = .reference reference resolved)
    (hold : ∀ id : Nat, (d.nodes.node id).kind.DeclaresRequired) :
    ∀ i : Nat, ((d.bind id target).nodes.node i).kind.DeclaresRequired := by
  intro i
  rcases Decidable.eq_or_ne i id with rfl | hne
  · rw [node_bind_self hkind]
    rintro _ ⟨⟩
  · rw [node_bind_of_ne hne]
    exact hold i

theorem Resolves.declaresRequired {document : Json} {d d' : Draft} {demands : List String}
    (h : Resolves document d demands d') (hd : d.Indexed)
    (hold : ∀ id : Nat, (d.nodes.node id).kind.DeclaresRequired) :
    ∀ id : Nat, (d'.nodes.node id).kind.DeclaresRequired := by
  induction h with
  | done => exact hold
  | skip _ _ _ ih => exact ih ⟨hd.lt, hd.nodup⟩ hold
  | @known d d' id target rest _ _ _ _ _ hkind _ _ _ ih =>
      have hd₀ : ({ d with pending := rest } : Draft).Indexed := ⟨hd.lt, hd.nodup⟩
      exact ih (hd₀.bind id target) (Draft.declaresRequired_bind hkind hold)
  | @demand d d₁ d' id target rest _ _ _ _ _ _ hkind _ _ _ hreads _ ih =>
      have hd₀ : ({ d with pending := rest } : Draft).Indexed := ⟨hd.lt, hd.nodup⟩
      have hid := Arena.lt_size_of_reference hkind
      rw [← hreads.grows.node_eq id hid] at hkind
      exact ih ((hreads.indexed hd₀).bind id target)
        (Draft.declaresRequired_bind hkind (hreads.declaresRequired hd₀ hold))

namespace Schema

variable {document : Json} {s : Schema} {demands : List String} {d : Draft}

theorem ReadTo.declaresRequired (h : s.ReadTo document demands d) (id : NodeId) :
    (s.node id).kind.DeclaresRequired := by
  have hnode := h.node_eq
  obtain ⟨d₀, hroot, hresolves, -⟩ := h
  rw [hnode]
  have hnone : ∀ id : Nat, (Arena.node #[] id).kind.DeclaresRequired := by
    intro id
    rw [Arena.node_of_size_le (Nat.zero_le id)]
    rintro _ ⟨⟩
  exact hresolves.declaresRequired (hroot.indexed Draft.indexed_empty)
    (hroot.declaresRequired Draft.indexed_empty hnone) id

end Schema

/-! ### What stands at reached locations -/

section

variable {document : Json} {s : Schema} {place : NodeId → Option String}

theorem Keyword.holdsText_of_map {members : Members} {keyword : String} {text : Option String}
    (h : members.lookup keyword = text.map .string) : Keyword.HoldsText members keyword := by
  cases text with
  | none => exact .inl h
  | some text => exact .inr ⟨text, h⟩

/-- The value at the place of a node spells a schema. -/
theorem FaithfulBy.spellsSchema (h : FaithfulBy document s place)
    (hrequired : ∀ id, (s.node id).kind.DeclaresRequired) {id : Nat} {pointer : String}
    (hid : id < s.nodes.size) (hplace : place id = some pointer) :
    ∃ value, document.at? pointer = some value ∧ SpellsSchema document value := by
  obtain ⟨value, hvalue, hdescribes⟩ := h.located id hid pointer hplace
  refine ⟨value, hvalue, ?_⟩
  have hreference := h.reference id
  have hdeclares := hrequired id
  generalize s.node id = node at hdescribes hreference hdeclares
  cases hdescribes with
  | any => exact .any
  | @object members _ htitle hdescription hkind =>
      have hshape : ∃ outline, Outlines document members outline ∧ outline.WellShaped members := by
        generalize node.kind = kind at hkind hreference hdeclares
        cases hkind with
        | reference houtline =>
            obtain ⟨_, target, -, -, hpointer, -⟩ := hreference _ _ rfl
            exact ⟨_, houtline, Pointer.ofReference?_isSome_iff.mp ⟨target, hpointer⟩⟩
        | leaf houtline hnone =>
            refine ⟨_, houtline, ?_⟩
            cases kind with
            | reference => cases hnone
            | _ => trivial
        | @object named values names shape houtline hnamed hnames hvalues hproperties hrequired' =>
            refine ⟨_, houtline, named, names, values, hnamed, hnames, fun name hname => ?_,
              hvalues⟩
            have hmem := hdeclares shape rfl name
              (by rw [hrequired']; exact List.mem_eraseDups.mpr hname)
            have hkeys := congrArg (List.map Prod.fst) hproperties
            simp only [List.map_map, Function.comp_def] at hkeys
            rwa [show shape.properties.map Prod.fst = named.map Prod.fst from hkeys] at hmem
        | bareArray houtline => exact ⟨_, houtline, trivial⟩
        | tuple houtline => exact ⟨_, houtline, trivial⟩
        | array houtline => exact ⟨_, houtline, trivial⟩
      obtain ⟨outline, houtline, hshape⟩ := hshape
      exact .object (Keyword.holdsText_of_map htitle) (Keyword.holdsText_of_map hdescription)
        houtline hshape

/-- A node on an endless chain leads nowhere. -/
theorem FaithfulBy.not_leads (h : FaithfulBy document s place) {chain : Nat → String}
    (hchain : EndlessChain document chain) {steps : Nat} {id target : Nat} {n : Nat}
    (hid : id < s.nodes.size) (hplace : place id = some (chain n)) :
    ¬s.nodes.Leads steps id target := by
  intro hleads
  induction hleads generalizing n with
  | here hkind =>
      obtain ⟨_, _, hkind', -, -⟩ := h.link hid hplace (hchain n)
      rw [Schema.node] at hkind'
      rw [hkind'] at hkind
      cases hkind
  | next hkind _ ih =>
      obtain ⟨_, _, hkind', hnext, hplace'⟩ := h.link hid hplace (hchain n)
      rw [Schema.node, hkind] at hkind'
      cases hkind'
      exact ih hnext hplace'

end

end SchemaBridge
