import SchemaBridge.Proofs.DistinctKeys
import SchemaBridge.Proofs.ReadingGrowth

/-!
What a schema says about the document that it was read from. Every node but the items of an array
without `items` has a place in the document, and says there what the keywords of the object at that
place say; its parts are at the places of its parts, in the order of the document, and a reference
leads to the node at the place that it names. Main statement: an object whose parts were read to
nodes in the right places is read to the kind that its keywords spell.
-/

namespace SchemaBridge

/-- The pointers of list elements, from the first on. -/
def elementPointers (base : String) (count : Nat) : List (Option String) :=
  (List.range count).map fun index => some (Pointer.element base index)

/-- A kind says what the keywords of the object at a pointer say, and its parts are in the places
where the object has them. -/
inductive Spells (document : Json) (place : NodeId → Option String) (pointer : String)
    (members : Members) : Kind → Prop
  | reference {reference : String} {resolved : Option NodeId}
      (houtline : Outlines document members (.leaf (.reference reference none))) :
      Spells document place pointer members (.reference reference resolved)
  | leaf {kind : Kind} (houtline : Outlines document members (.leaf kind))
      (hkind : kind.isReference = false) : Spells document place pointer members kind
  | object {named : Members} {values : List Json} {names : List String} {shape : ObjectShape}
      (houtline : Outlines document members .object)
      (hnamed : Keyword.HoldsMembers members "properties" named)
      (hnames : Keyword.HoldsList members "required" (names.map .string))
      (hvalues : Keyword.HoldsList members "allOf" values)
      (hproperties : shape.properties.map (fun m => (m.1, place m.2)) = named.map fun m =>
        (m.1, some (Pointer.child (Pointer.child pointer "properties") m.1)))
      (hrequired : shape.required = names.eraseDups)
      (hallOf : shape.allOf.map place =
        elementPointers (Pointer.child pointer "allOf") values.length) :
      Spells document place pointer members (.object shape)
  | bareArray {id : NodeId} (houtline : Outlines document members .array)
      (hitems : members.lookup "items" = none) (hplace : place id = none) :
      Spells document place pointer members (.array id)
  | tuple {values : List Json} {ids : List NodeId} (houtline : Outlines document members .array)
      (hitems : members.lookup "items" = some (.array values))
      (hplace : ids.map place = elementPointers (Pointer.child pointer "items") values.length) :
      Spells document place pointer members (.tuple ids)
  | array {items : Json} {id : NodeId} (houtline : Outlines document members .array)
      (hitems : members.lookup "items" = some items) (hlist : ∀ values, items ≠ .array values)
      (hplace : place id = some (Pointer.child pointer "items")) :
      Spells document place pointer members (.array id)

/-- A node says what the value at its place says. -/
inductive Describes (document : Json) (place : NodeId → Option String) (pointer : String) :
    Json → Node → Prop
  | any : Describes document place pointer (.bool true) { kind := .untyped }
  | object {members : Members} {node : Node}
      (htitle : members.lookup "title" = node.title.map .string)
      (hdescription : members.lookup "description" = node.description.map .string)
      (hkind : Spells document place pointer members node.kind) :
      Describes document place pointer (.object members) node

/-- A schema is faithful to a document by the places of its nodes. -/
structure FaithfulBy (document : Json) (s : Schema) (place : NodeId → Option String) : Prop where
  root : place s.root = some ""
  located : ∀ id < s.nodes.size, ∀ pointer, place id = some pointer →
    ∃ value, document.at? pointer = some value ∧ Describes document place pointer value (s.node id)
  unlocated : ∀ id < s.nodes.size, place id = none → s.node id = { kind := .untyped } ∧
    ∃ parent pointer members, parent < s.nodes.size ∧ place parent = some pointer ∧
      document.at? pointer = some (.object members) ∧ members.lookup "items" = none ∧
      (s.node parent).kind = .array id
  reference : ∀ id reference resolved, (s.node id).kind = .reference reference resolved →
    ∃ target pointer, resolved = some target ∧ target < s.nodes.size ∧
      Pointer.ofReference? reference = some pointer ∧ place target = some pointer

theorem map_pointer?_elementParts (base : String) (values : List Json) (index : Nat) :
    (elementParts base index values).map Part.pointer? =
      (List.range' index values.length).map fun i => some (Pointer.element base i) := by
  induction values generalizing index with
  | nil => rfl
  | cons value rest ih =>
      rw [elementParts, List.map_cons, ih, List.length_cons, List.range'_succ, List.map_cons]
      rfl

theorem map_pointer?_elementParts_zero (base : String) (values : List Json) :
    (elementParts base 0 values).map Part.pointer? = elementPointers base values.length := by
  rw [map_pointer?_elementParts, elementPointers, List.range_eq_range']

theorem map_pointer?_memberParts (base : String) (named : Members) :
    (memberParts base named).map Part.pointer? =
      named.map fun m => some (Pointer.child base m.1) := by
  rw [memberParts, List.map_map]
  rfl

namespace Reader

theorem requiredNames_ok {pointer : String} {properties : List (String × NodeId)}
    {values : List Json} {known found : List String}
    (h : requiredNames pointer properties values known = .ok found) :
    ∃ names : List String, values = names.map .string ∧
      found = names.foldl (fun known x => if x ∈ known then known else known ++ [x]) known := by
  induction values generalizing known with
  | nil => cases h; exact ⟨[], rfl, rfl⟩
  | cons value rest ih =>
      cases value with
      | string name =>
          rw [requiredNames] at h
          split at h
          · cases h
          · obtain ⟨names, rfl, rfl⟩ := ih h
            exact ⟨name :: names, rfl, rfl⟩
      | _ => cases h

theorem required_ok {members : Members} {pointer : String} {properties : List (String × NodeId)}
    {found : List String} (h : required members pointer properties = .ok found) :
    ∃ names : List String, Keyword.HoldsList members "required" (names.map .string) ∧
      found = names.eraseDups := by
  unfold required at h
  split at h
  · cases h
    exact ⟨[], .inr ⟨‹_›, rfl⟩, rfl⟩
  · rename_i values hvalues
    obtain ⟨names, rfl, rfl⟩ := requiredNames_ok h
    refine ⟨names, .inl hvalues, ?_⟩
    have hfold := Keyword.foldl_append_new names []
    rwa [List.nil_append, List.filter_eq_self.mpr (by simp)] at hfold
  · cases h

end Reader

theorem Keyword.text?_ok {members : Members} {keyword pointer : String} {text : Option String}
    (h : text? members keyword pointer = .ok text) :
    members.lookup keyword = text.map .string := by
  unfold text? at h
  split at h
  · cases h; assumption
  · cases h; assumption
  · cases h

/-! ### One object and its parts -/

/-- The value of a part is what its pointer leads to. -/
def Part.Fits (document : Json) : Part → Prop
  | located pointer value => document.at? pointer = some value
  | bare => True

theorem elementParts_fit {document : Json} {base : String} {all : List Json}
    (hbase : document.at? base = some (.array all)) (index : Nat) (values : List Json)
    (hvalues : all.drop index = values) : ∀ part ∈ elementParts base index values,
      part.Fits document := by
  induction values generalizing index with
  | nil => simp [elementParts]
  | cons value rest ih =>
      rw [elementParts]
      have hget : all[index]? = some value := by
        rw [← List.head?_drop, hvalues, List.head?_cons]
      have hrest : all.drop (index + 1) = rest := by
        rw [← List.tail_drop, hvalues, List.tail_cons]
      refine List.forall_mem_cons.mpr ⟨?_, ih (index + 1) hrest⟩
      rw [Part.Fits, Pointer.element, Json.at?_child hbase]
      exact Json.step?_element hget

theorem memberParts_fit {document : Json} {base : String} {named : Members}
    (hbase : document.at? base = some (.object named)) (hkeys : (named.map Prod.fst).Nodup) :
    ∀ part ∈ memberParts base named, part.Fits document := by
  intro part hpart
  obtain ⟨m, hm, rfl⟩ := List.mem_map.mp hpart
  rw [Part.Fits, Json.at?_child hbase]
  exact lookup_of_mem hkeys hm

/-- The parts of an object in a document are in the document. -/
theorem Assembles.fit {document : Json} {members : Members} {pointer : String} {outline : Outline}
    {parts : List Part} {ids : List NodeId} {kind : Kind} (hdistinct : document.DistinctKeys)
    (hvalue : document.at? pointer = some (.object members))
    (h : Assembles members pointer outline parts ids kind) : ∀ part ∈ parts, part.Fits document := by
  have hmember : ∀ {keyword value}, members.lookup keyword = some value →
      document.at? (Pointer.child pointer keyword) = some value := by
    intro keyword value hlookup
    rw [Json.at?_child hvalue]
    exact hlookup
  cases h with
  | leaf => simp
  | object hnamed hvalues _ _ =>
      refine List.forall_mem_append.mpr ⟨?_, ?_⟩
      · rcases hnamed with hnamed | ⟨-, rfl⟩
        · have hat := hmember hnamed
          exact memberParts_fit hat (hdistinct.at? hat).keys_nodup
        · simp [memberParts]
      · rcases hvalues with hvalues | ⟨-, rfl⟩
        · exact elementParts_fit (hmember hvalues) 0 _ rfl
        · simp [elementParts]
  | bareArray => simp [Part.Fits]
  | tuple hitems => exact elementParts_fit (hmember hitems) 0 _ rfl
  | array hitems hlist => simpa [Part.Fits] using hmember hitems

/-- With its parts in their places, an object has the kind that it spells. -/
theorem Assembles.spells {document : Json} {members : Members} {pointer : String}
    {outline : Outline} {parts : List Part} {ids : List NodeId} {kind : Kind}
    {place : NodeId → Option String} (houtline : Outlines document members outline)
    (h : Assembles members pointer outline parts ids kind)
    (hplace : ids.map place = parts.map Part.pointer?) :
    Spells document place pointer members kind := by
  cases h with
  | leaf kind =>
      cases houtline with
      | reference href hothers => exact .reference (.reference href hothers)
      | enumeration henum hne hothers => exact .leaf (.enumeration henum hne hothers) rfl
      | combinator h₁ h₂ h₃ h₄ => exact .leaf (.combinator h₁ h₂ h₃ h₄) rfl
      | several h₁ h₂ h₃ => exact .leaf (.several h₁ h₂ h₃) rfl
      | primitive h₁ h₂ h₃ => exact .leaf (.primitive h₁ h₂ h₃) rfl
      | untyped h₁ h₂ h₃ h₄ => exact .leaf (.untyped h₁ h₂ h₃ h₄) rfl
  | @object named values ids branchIds required hnamed hvalues hids hrequired =>
      rw [List.map_append, List.map_append] at hplace
      obtain ⟨hproperties, hbranches⟩ := List.append_inj hplace (by simp [memberParts, hids])
      obtain ⟨names, hnames, rfl⟩ := Reader.required_ok hrequired
      refine .object houtline hnamed hnames hvalues ?_ rfl ?_
      · rw [map_pointer?_memberParts] at hproperties
        have hzip : (named.map Prod.fst).zip (ids.map place) =
            ((named.map Prod.fst).zip ids).map (Prod.map id place) := List.zip_map_right
        rw [hproperties, List.zip_map'] at hzip
        exact hzip.symm
      · rw [hbranches, map_pointer?_elementParts_zero]
  | bareArray hitems => exact .bareArray houtline hitems (List.cons.inj hplace).1
  | tuple hitems =>
      exact .tuple houtline hitems (by rw [hplace, map_pointer?_elementParts_zero])
  | array hitems hlist => exact .array houtline hitems hlist (List.cons.inj hplace).1

/-- What a kind spells depends only on the places of its parts. -/
theorem Spells.congr {document : Json} {place place' : NodeId → Option String} {pointer : String}
    {members : Members} {kind : Kind} (h : Spells document place pointer members kind)
    (hplace : ∀ c ∈ kind.children, place' c = place c) :
    Spells document place' pointer members kind := by
  cases h with
  | reference houtline => exact .reference houtline
  | leaf houtline hkind => exact .leaf houtline hkind
  | object houtline hnamed hnames hvalues hproperties hrequired hallOf =>
      obtain ⟨hfirst, hsecond⟩ := List.forall_mem_append.mp hplace
      refine .object houtline hnamed hnames hvalues ?_ hrequired ?_
      · rw [← hproperties]
        apply List.map_congr_left
        intro m hm
        rw [hfirst _ (List.mem_map_of_mem hm)]
      · rw [← hallOf]
        exact List.map_congr_left hsecond
  | bareArray houtline hitems hnone =>
      exact .bareArray houtline hitems (by rw [hplace _ (List.mem_singleton_self _), hnone])
  | tuple houtline hitems hids =>
      exact .tuple houtline hitems (by rw [← hids]; exact List.map_congr_left hplace)
  | array houtline hitems hlist hid =>
      exact .array houtline hitems hlist (by rw [hplace _ (List.mem_singleton_self _), hid])

end SchemaBridge
