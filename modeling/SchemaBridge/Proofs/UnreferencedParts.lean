import SchemaBridge.Proofs.DocumentReferences
import SchemaBridge.Proofs.ReadingBudgets

/-!
Two documents that are read alike. Reading looks up the keywords of schema objects and the places
that references name, and nothing else, so documents that agree on these are read in step, whatever
else they hold. Main statement: a member of the root that is no keyword and that no reference goes
into can be added, removed, moved or changed without any effect on what is read.
-/

namespace SchemaBridge

namespace Keyword

/-- The keywords that are looked up in a schema object. -/
def lookedUp : List String :=
  ["title", "description", "$ref", "enum", "oneOf", "anyOf", "type", "properties", "required",
    "allOf", "items"]

/-- Two objects hold the same at every keyword, and the references there are good. -/
structure Agree (good : String → Prop) (members members' : Members) : Prop where
  lookup : ∀ keyword ∈ lookedUp, members.lookup keyword = members'.lookup keyword
  cites : ∀ keyword ∈ lookedUp, ∀ part, members.lookup keyword = some part → part.CitesOnly good
  reference : ∀ reference, members.lookup "$ref" = some (.string reference) → good reference

theorem Agree.isIn_eq {good : String → Prop} {members members' : Members}
    (h : Agree good members members') (keyword : String) (hkeyword : keyword ∈ lookedUp) :
    isIn keyword members = isIn keyword members' := by
  unfold isIn
  rw [h.lookup keyword hkeyword]

/-- What a keyword is looked up to is the same part of both objects, and its references are good. -/
theorem Agree.found {good : String → Prop} {document document' value : Json}
    {members members' : Members} {keyword : String} (h : Agree good members members')
    (hkeyword : keyword ∈ lookedUp) (hwithin : document.Within (.object members))
    (hwithin' : document'.Within (.object members'))
    (hvalue : members.lookup keyword = some value) :
    value.CitesOnly good ∧ document.Within value ∧ document'.Within value := by
  have hvalue' : members'.lookup keyword = some value := by rw [← h.lookup keyword hkeyword, hvalue]
  exact ⟨h.cites keyword hkeyword value hvalue, hwithin.member hvalue, hwithin'.member hvalue'⟩

theorem Agree.refl {good : String → Prop} {members : Members}
    (h : (Json.object members).CitesOnly good) : Agree good members members where
  lookup _ _ := rfl
  cites _ _ _ hpart := h.member hpart
  reference _ href := h.reference href

end Keyword

/-- Two values that are read alike: the same value, or objects with the same keywords. -/
inductive Json.Alike (good : String → Prop) : Json → Json → Prop
  | same {value : Json} (h : value.CitesOnly good) : Alike good value value
  | objects {members members' : Members} (h : Keyword.Agree good members members') :
      Alike good (.object members) (.object members')

theorem Json.Alike.of_object {good : String → Prop} {members : Members} {value : Json}
    (h : (Json.object members).Alike good value) :
    ∃ members', value = .object members' ∧ Keyword.Agree good members members' := by
  cases h with
  | same h => exact ⟨members, rfl, .refl h⟩
  | objects h => exact ⟨_, rfl, h⟩

theorem Json.Alike.left {good : String → Prop} {value value' : Json} (h : value.Alike good value') :
    value.Alike good value := by
  cases h with
  | same h => exact .same h
  | objects h => exact .objects ⟨fun _ _ => rfl, h.cites, h.reference⟩

/-- The good references lead to values that are read alike in two documents, if to any. -/
def Json.AgreeAt (good : String → Prop) (document document' : Json) : Prop :=
  ∀ reference pointer, good reference → Pointer.ofReference? reference = some pointer →
    Option.Rel (Json.Alike good) (document.at? pointer) (document'.at? pointer)

variable {good : String → Prop} {document document' : Json} {members members' : Members}

namespace UnionTypes

theorem combinators_lookedUp : combinators ⊆ Keyword.lookedUp := by
  decide

theorem nested_eq (h : Keyword.Agree good members members') : nested members = nested members' := by
  rw [nested, nested]
  apply List.filterMap_congr
  intro keyword hkeyword
  rw [h.lookup keyword (combinators_lookedUp hkeyword)]

theorem declared_eq (h : Keyword.Agree good members members') (pointer : String) :
    declared members pointer = declared members' pointer := by
  unfold declared Keyword.isIn
  rw [h.lookup "type" (by decide), h.lookup "properties" (by decide), h.lookup "items" (by decide)]

/-- Branches that are alike unfold alike. -/
theorem addBranch_alike (hagree : document.AgreeAt good document') (budget : Nat) :
    ∀ {followed : List String} {branch branch' : Json}, branch.Alike good branch' →
      ∀ pointer types, addBranch document budget followed pointer branch types =
        addBranch document' budget followed pointer branch' types := by
  induction budget with
  | zero => intro _ _ _ _ _ _; rfl
  | succ budget ih =>
      have hobjects : ∀ {followed : List String} {members members' : Members},
          Keyword.Agree good members members' → ∀ pointer types,
          addBranch document (budget + 1) followed pointer (.object members) types =
            addBranch document' (budget + 1) followed pointer (.object members') types := by
        intro followed members members' h pointer types
        rw [addBranch, addBranch, ← h.lookup "$ref" (by decide)]
        split
        · rename_i reference href
          split
          · rfl
          · cases hpointer : Pointer.ofReference? reference with
            | none => simp only [Keyword.referencePointer, hpointer]; rfl
            | some target =>
                simp only [Keyword.referencePointer, hpointer]
                have hrel := hagree reference target (h.reference reference href) hpointer
                simp only [bind, Except.bind]
                generalize document.at? target = found, document'.at? target = found' at hrel
                cases hrel with
                | some halike => exact ih halike target types
                | none => rfl
        · rfl
        · rw [← nested_eq h, ← declared_eq h]
          split
          · rfl
          · apply foldlM_congr
            rintro ⟨keyword, branches⟩ hlist types'
            apply addBranches_congr
            intro branch hbranch pointer' types''
            obtain ⟨hkeyword, hlookup⟩ := mem_nested.mp hlist
            have hcites := h.cites keyword (combinators_lookedUp hkeyword) _ hlookup
            exact ih (.same (hcites.element hbranch)) pointer' types''
      intro followed branch branch' halike pointer types
      cases halike with
      | objects h => exact hobjects h pointer types
      | same h =>
          cases branch with
          | object members => exact hobjects (.refl h) pointer types
          | _ => rfl

/-- Objects that agree have the same types in their combinators. -/
theorem read_alike (hagree : document.AgreeAt good document')
    (h : Keyword.Agree good members members') (hwithin : document.Within (.object members))
    (hwithin' : document'.Within (.object members')) (pointer : String) :
    read document members pointer = read document' members' pointer := by
  unfold read
  apply foldlM_congr
  intro keyword hkeyword types
  have hlookedUp := combinators_lookedUp hkeyword
  rw [← h.lookup keyword hlookedUp]
  cases hvalue : members.lookup keyword with
  | none => rfl
  | some value =>
      obtain ⟨hcites, hwithin, hwithin'⟩ := h.found hlookedUp hwithin hwithin' hvalue
      cases value with
      | array branches =>
          cases branches with
          | nil => rfl
          | cons branch rest =>
              apply addBranches_congr
              intro inner hinner pointer' types'
              -- both documents leave the branch less depth than the larger of their budgets
              have hinside := hwithin.element hinner
              have hinside' := hwithin'.element hinner
              have hdepth := depthLeft_le_maxDepth hinside.size_le
              have hdepth' := depthLeft_le_maxDepth hinside'.size_le
              calc addBranch document (maxDepth document) [] pointer' inner types'
                  = addBranch document (max (maxDepth document) (maxDepth document')) [] pointer'
                      inner types' :=
                    addBranch_budget hinside hdepth (hdepth.trans (Nat.le_max_left _ _)) _ _
                _ = addBranch document' (max (maxDepth document) (maxDepth document')) [] pointer'
                      inner types' :=
                    addBranch_alike hagree _ (.same (hcites.element hinner)) _ _
                _ = addBranch document' (maxDepth document') [] pointer' inner types' :=
                    addBranch_budget hinside' (hdepth'.trans (Nat.le_max_right _ _)) hdepth' _ _
      | _ => rfl

end UnionTypes

namespace Outline

theorem ofType_eq (h : Keyword.Agree good members members') (pointer : String) :
    ofType members pointer = ofType members' pointer := by
  funext type
  cases type with
  | primitive type =>
      simp only [ofType, List.find?, h.isIn_eq "properties" (by decide),
        h.isIn_eq "items" (by decide), h.isIn_eq "allOf" (by decide)]
  | _ => rfl

theorem ofDeclaredType_eq (h : Keyword.Agree good members members') (pointer : String) :
    ofDeclaredType members pointer = ofDeclaredType members' pointer := by
  have hany : ["properties", "required", "allOf"].any (Keyword.isIn · members) =
      ["properties", "required", "allOf"].any (Keyword.isIn · members') := by
    simp only [List.any, h.isIn_eq "properties" (by decide), h.isIn_eq "required" (by decide),
      h.isIn_eq "allOf" (by decide)]
  unfold ofDeclaredType
  rw [h.lookup "type" (by decide), ofType_eq h, hany, h.isIn_eq "items" (by decide)]

theorem read_alike (hagree : document.AgreeAt good document')
    (h : Keyword.Agree good members members') (hwithin : document.Within (.object members))
    (hwithin' : document'.Within (.object members')) (pointer : String) :
    read document members pointer = read document' members' pointer := by
  have hisIn : ∀ keyword ∈ deciding,
      Keyword.isIn keyword members = Keyword.isIn keyword members' := by
    intro keyword hkeyword
    have hlookedUp : deciding ⊆ Keyword.lookedUp := by decide
    exact h.isIn_eq keyword (hlookedUp hkeyword)
  have hdeciding : deciding.filter (Keyword.isIn · members) =
      deciding.filter (Keyword.isIn · members') := List.filter_congr hisIn
  have hcombinators : UnionTypes.combinators.filter (Keyword.isIn · members) =
      UnionTypes.combinators.filter (Keyword.isIn · members') :=
    List.filter_congr fun keyword hkeyword => hisIn keyword (List.mem_append_right _ hkeyword)
  unfold read
  rw [h.lookup "$ref" (by decide), h.lookup "enum" (by decide), hdeciding, hcombinators,
    ofDeclaredType_eq h, UnionTypes.read_alike hagree h hwithin hwithin']

end Outline

namespace Reader

open Steps

theorem text?_eq (h : Keyword.Agree good members members') (keyword : String)
    (hkeyword : keyword ∈ Keyword.lookedUp) (pointer : String) :
    Keyword.text? members keyword pointer = Keyword.text? members' keyword pointer := by
  unfold Keyword.text?
  rw [h.lookup keyword hkeyword]

theorem required_eq (h : Keyword.Agree good members members') (pointer : String) :
    required members pointer = required members' pointer := by
  funext properties
  unfold required
  rw [h.lookup "required" (by decide)]

theorem declaredProperties_eq (pointer : String) :
    declaredProperties document pointer members =
      match members.lookup "properties" with
      | none => pure []
      | some (.object named) => properties document (Pointer.child pointer "properties") named
      | some _ => throw (.invalidKeyword pointer "properties" .object) := by
  rw [declaredProperties]
  split <;> simp only [*]

theorem branches_eq (pointer : String) :
    branches document pointer members =
      match members.lookup "allOf" with
      | none => pure []
      | some (.array values) => elements document (Pointer.child pointer "allOf") 0 values
      | some _ => throw (.invalidKeyword pointer "allOf" .array) := by
  rw [branches]
  split <;> simp only [*]

theorem array_eq (pointer : String) :
    array document pointer members =
      match members.lookup "items" with
      | none => do return .array (← modifyGet (·.push { kind := .untyped }))
      | some (.array parts) => do
        return .tuple (← elements document (Pointer.child pointer "items") 0 parts)
      | some items => do
        return .array (← schema document (Pointer.child pointer "items") items) := by
  rw [array]
  split <;> simp only [*]

mutual
/-- Values that are alike are read alike. -/
theorem schema_alike (hagree : document.AgreeAt good document') {pointer : String} :
    ∀ {value value' : Json}, value.Alike good value' →
    document.Within value → document'.Within value' →
    schema document pointer value = schema document' pointer value'
  | .object members, _, halike, hwithin, hwithin' => by
    obtain ⟨members', rfl, h⟩ := halike.of_object
    rw [schema, schema, text?_eq h "title" (by decide), text?_eq h "description" (by decide),
      Outline.read_alike hagree h hwithin hwithin', object_alike hagree h hwithin hwithin',
      array_alike hagree h hwithin hwithin']
  | .bool true, _, .same _, _, _ => by rw [schema, schema]
  | .bool false, _, .same _, _, _ => by simp only [schema]
  | .null, _, .same _, _, _ => by simp only [schema]
  | .number _, _, .same _, _, _ => by simp only [schema]
  | .string _, _, .same _, _, _ => by simp only [schema]
  | .array _, _, .same _, _, _ => by simp only [schema]
termination_by value => 4 * value.size
decreasing_by all_goals simp only [Json.size]; omega

theorem object_alike (hagree : document.AgreeAt good document')
    {pointer : String} {members members' : Members} (h : Keyword.Agree good members members')
    (hwithin : document.Within (.object members))
    (hwithin' : document'.Within (.object members')) :
    object document pointer members = object document' pointer members' := by
  rw [object, object, declaredProperties_alike hagree h hwithin hwithin', required_eq h,
    branches_alike hagree h hwithin hwithin']
termination_by 4 * Json.sizeMembers members + 3

theorem declaredProperties_alike (hagree : document.AgreeAt good document')
    {pointer : String} {members members' : Members} (h : Keyword.Agree good members members')
    (hwithin : document.Within (.object members))
    (hwithin' : document'.Within (.object members')) :
    declaredProperties document pointer members =
      declaredProperties document' pointer members' := by
  rw [declaredProperties_eq, declaredProperties_eq, ← h.lookup "properties" (by decide)]
  cases hvalue : members.lookup "properties" with
  | none => rfl
  | some value =>
      obtain ⟨hcites, hinside, hinside'⟩ := h.found (by decide) hwithin hwithin' hvalue
      cases value with
      | object named =>
          exact properties_alike hagree (fun m hm => hcites.of_mem hm)
            (fun m hm => hinside.of_mem hm) fun m hm => hinside'.of_mem hm
      | _ => rfl
termination_by 4 * Json.sizeMembers members + 2
decreasing_by
  have := Json.size_le_sizeMembers ‹members.lookup "properties" = _›
  simp only [Json.size] at this
  omega

theorem branches_alike (hagree : document.AgreeAt good document')
    {pointer : String} {members members' : Members} (h : Keyword.Agree good members members')
    (hwithin : document.Within (.object members))
    (hwithin' : document'.Within (.object members')) :
    branches document pointer members = branches document' pointer members' := by
  rw [branches_eq, branches_eq, ← h.lookup "allOf" (by decide)]
  cases hvalue : members.lookup "allOf" with
  | none => rfl
  | some value =>
      obtain ⟨hcites, hinside, hinside'⟩ := h.found (by decide) hwithin hwithin' hvalue
      cases value with
      | array values =>
          exact elements_alike hagree (fun v hv => hcites.element hv)
            (fun v hv => hinside.element hv) fun v hv => hinside'.element hv
      | _ => rfl
termination_by 4 * Json.sizeMembers members + 2
decreasing_by
  have := Json.size_le_sizeMembers ‹members.lookup "allOf" = _›
  simp only [Json.size] at this
  omega

theorem array_alike (hagree : document.AgreeAt good document')
    {pointer : String} {members members' : Members} (h : Keyword.Agree good members members')
    (hwithin : document.Within (.object members))
    (hwithin' : document'.Within (.object members')) :
    array document pointer members = array document' pointer members' := by
  rw [array_eq, array_eq, ← h.lookup "items" (by decide)]
  cases hvalue : members.lookup "items" with
  | none => rfl
  | some value =>
      obtain ⟨hcites, hinside, hinside'⟩ := h.found (by decide) hwithin hwithin' hvalue
      have hschema : schema document (Pointer.child pointer "items") value =
          schema document' (Pointer.child pointer "items") value :=
        schema_alike hagree (.same hcites) hinside hinside'
      cases value with
      | array values =>
          simp only [elements_alike hagree (fun v hv => hcites.element hv)
            (fun v hv => hinside.element hv) fun v hv => hinside'.element hv]
      | _ => simp only [hschema]
termination_by 4 * Json.sizeMembers members + 2
decreasing_by
  · have := Json.size_le_sizeMembers ‹members.lookup "items" = _›
    omega
  · have := Json.size_le_sizeMembers ‹members.lookup "items" = _›
    simp only [Json.size] at this
    omega

theorem properties_alike (hagree : document.AgreeAt good document') {base : String} :
    ∀ {named : Members},
    (∀ m ∈ named, m.2.CitesOnly good) → (∀ m ∈ named, document.Within m.2) →
    (∀ m ∈ named, document'.Within m.2) →
    properties document base named = properties document' base named
  | [], _, _, _ => by rw [properties, properties]
  | (name, value) :: rest, hcites, hwithin, hwithin' => by
    obtain ⟨hcite, hcites⟩ := List.forall_mem_cons.mp hcites
    obtain ⟨hfirst, hwithin⟩ := List.forall_mem_cons.mp hwithin
    obtain ⟨hfirst', hwithin'⟩ := List.forall_mem_cons.mp hwithin'
    rw [properties, properties, schema_alike hagree (.same hcite) hfirst hfirst',
      properties_alike hagree hcites hwithin hwithin']
termination_by named => 4 * Json.sizeMembers named + 1
decreasing_by
  all_goals
    have := value.size_pos
    simp only [Json.sizeMembers]
    omega

theorem elements_alike (hagree : document.AgreeAt good document') {base : String} {index : Nat} :
    ∀ {values : List Json},
    (∀ v ∈ values, v.CitesOnly good) → (∀ v ∈ values, document.Within v) →
    (∀ v ∈ values, document'.Within v) →
    elements document base index values = elements document' base index values
  | [], _, _, _ => by rw [elements, elements]
  | value :: rest, hcites, hwithin, hwithin' => by
    obtain ⟨hcite, hcites⟩ := List.forall_mem_cons.mp hcites
    obtain ⟨hfirst, hwithin⟩ := List.forall_mem_cons.mp hwithin
    obtain ⟨hfirst', hwithin'⟩ := List.forall_mem_cons.mp hwithin'
    rw [elements, elements, schema_alike hagree (.same hcite) hfirst hfirst',
      elements_alike hagree hcites hwithin hwithin']
termination_by values => 4 * Json.sizeElements values + 1
decreasing_by
  all_goals
    have := value.size_pos
    simp only [Json.sizeElements]
    omega
end

/-- A good reference has the same target in documents that agree. -/
theorem target_alike (hagree : document.AgreeAt good document') {reference : String}
    (hgood : good reference) : target document reference = target document' reference := by
  cases hpointer : Pointer.ofReference? reference with
  | none =>
      simp only [target, Keyword.referencePointer, hpointer]
      exact lift_error_bind _ _ _
  | some pointer =>
      have hrel := hagree reference pointer hgood hpointer
      simp only [target, Keyword.referencePointer, hpointer, lift_ok_bind]
      cases hfound : document.at? pointer with
      | none =>
          rw [hfound] at hrel
          cases hfound' : document'.at? pointer with
          | none => rfl
          | some value' => rw [hfound'] at hrel; cases hrel
      | some value =>
          rw [hfound] at hrel
          cases hfound' : document'.at? pointer with
          | none => rw [hfound'] at hrel; cases hrel
          | some value' =>
              rw [hfound'] at hrel
              cases hrel with
              | some halike =>
                  simp only [schema_alike hagree halike (Json.within_of_at? hfound)
                    (Json.within_of_at? hfound')]

end Reader

/-- The references among the nodes of a draft are good. -/
structure Draft.CitesOnly (good : String → Prop) (d : Draft) : Prop where
  indexed : d.Indexed
  reference : ∀ id reference resolved, (d.nodes.node id).kind = .reference reference resolved →
    good reference

/-- The value of a part is read alike to itself. -/
def Part.Cites (good : String → Prop) : Part → Prop
  | located _ value => value.Alike good value
  | bare => True

theorem elementParts_cites {base : String} {index : Nat} {values : List Json}
    (h : ∀ v ∈ values, v.CitesOnly good) :
    ∀ part ∈ elementParts base index values, part.Cites good := by
  induction values generalizing index with
  | nil => simp [elementParts]
  | cons value rest ih =>
      obtain ⟨hvalue, hrest⟩ := List.forall_mem_cons.mp h
      exact List.forall_mem_cons.mpr ⟨.same hvalue, ih hrest⟩

theorem Part.cites_handsDown : HandsDown (Part.Cites good) := by
  intro members pointer outline parts ids kind hpart hkind
  obtain ⟨_, ⟨⟩, h⟩ := Json.Alike.of_object hpart
  cases hkind with
  | leaf => simp
  | object hnamed hvalues =>
      refine List.forall_mem_append.mpr ⟨?_, ?_⟩
      · intro part hpart
        obtain ⟨m, hm, rfl⟩ := List.mem_map.mp hpart
        exact .same ((h.cites _ (by decide) _ (hnamed.lookup hm)).of_mem hm)
      · rcases hvalues with hvalues | ⟨-, rfl⟩
        · exact elementParts_cites fun v hv => (h.cites _ (by decide) _ hvalues).element hv
        · simp [elementParts]
  | bareArray => simp [Part.Cites]
  | tuple hitems => exact elementParts_cites fun v hv => (h.cites _ (by decide) _ hitems).element hv
  | array hitems => simpa [Part.Cites] using .same (h.cites _ (by decide) _ hitems)

theorem Reads.citesOnly {parts : List Part} {d d' : Draft} {ids : List NodeId}
    (h : Reads document parts d ids d') (hparts : ∀ part ∈ parts, part.Cites good)
    (hd : d.CitesOnly good) : d'.CitesOnly good := by
  refine ⟨h.indexed hd.indexed, fun id reference resolved hkind => ?_⟩
  rcases Nat.lt_or_ge id d.nodes.size with hlt | hle
  · rw [h.grows.node_eq id hlt] at hkind
    exact hd.reference id reference resolved hkind
  · obtain ⟨part, hcites, hrecord⟩ := h.recorded Part.cites_handsDown hd.indexed hparts id hle
      (Arena.lt_size_of_reference hkind)
    cases hrecord with
    | bare _ hnode => rw [hnode] at hkind; cases hkind
    | any _ hnode => rw [hnode] at hkind; cases hkind
    | object _ _ _ houtline hassembles _ _ hnode =>
        rw [hnode] at hkind
        obtain rfl := hkind
        obtain ⟨_, ⟨⟩, hagree⟩ := Json.Alike.of_object hcites
        cases hassembles with
        | leaf =>
            cases houtline with
            | reference href => exact hagree.reference _ href

theorem Draft.CitesOnly.bind {d : Draft} (h : d.CitesOnly good) {id : NodeId} {reference : String}
    {resolved : Option NodeId} (hkind : (d.nodes.node id).kind = .reference reference resolved)
    (target : NodeId) : (d.bind id target).CitesOnly good := by
  refine ⟨h.indexed.bind id target, fun i text bound htext => ?_⟩
  rcases Decidable.eq_or_ne i id with rfl | hne
  · rw [node_bind_self hkind] at htext
    cases htext
    exact h.reference i reference resolved hkind
  · rw [node_bind_of_ne hne] at htext
    exact h.reference i text bound htext

/-- Reading the target of a good reference keeps the references good, and the node as it is. -/
theorem Reader.target_keeps (hagree : document.AgreeAt good document') {d d₁ : Draft}
    {id found : NodeId} {reference : String} {resolved : Option NodeId} (hgood : good reference)
    (hd : d.CitesOnly good) (hkind : (d.nodes.node id).kind = .reference reference resolved)
    (hfound : (target document reference).run d = .ok (found, d₁)) :
    d₁.CitesOnly good ∧ (d₁.nodes.node id).kind = .reference reference resolved := by
  obtain ⟨pointer, hpointer, ⟨-, rfl⟩ | ⟨-, value, hvalue, hreads⟩⟩ := target_ok hfound
  · exact ⟨hd, hkind⟩
  · have hrel := hagree reference pointer hgood hpointer
    rw [hvalue] at hrel
    have hcites : (Part.located pointer value).Cites good := by
      generalize document'.at? pointer = other at hrel
      cases hrel with
      | some halike => exact halike.left
    refine ⟨hreads.citesOnly (by simpa using hcites) hd, ?_⟩
    rw [hreads.grows.node_eq id (Arena.lt_size_of_reference hkind)]
    exact hkind

/-- Resolving the references of documents that agree has the same outcome. -/
theorem Reader.resolve_alike (hagree : document.AgreeAt good document') (budget : Nat) :
    ∀ {d : Draft}, d.CitesOnly good →
      (resolve document budget).run d = (resolve document' budget).run d := by
  induction budget with
  | zero => intro d _; rw [resolve, resolve]
  | succ budget ih =>
      intro d hd
      have hd₀ : ∀ rest, ({ d with pending := rest } : Draft).CitesOnly good :=
        fun rest => ⟨⟨hd.indexed.lt, hd.indexed.nodup⟩, hd.reference⟩
      cases hpending : d.pending with
      | nil =>
          rw [resolve, resolve, Steps.run_get_bind, Steps.run_get_bind]
          simp only [hpending]
      | cons id rest =>
          cases hkind : (d.nodes.node id).kind with
          | reference reference resolved =>
              have hgood := hd.reference id reference resolved hkind
              rw [resolve_step hpending hkind, resolve_step hpending hkind, StateT.run_bind,
                StateT.run_bind, ← target_alike hagree hgood]
              cases hfound : (target document reference).run { d with pending := rest } with
              | error e =>
                  show (Except.error e : Except _ _) = .error e
                  rfl
              | ok r =>
                  obtain ⟨found, d₁⟩ := r
                  obtain ⟨hd₁, hkind₁⟩ := target_keeps hagree hgood (hd₀ rest) hkind hfound
                  show (resolve document budget).run (d₁.bind id found) =
                    (resolve document' budget).run (d₁.bind id found)
                  exact ih (hd₁.bind hkind₁ found)
          | _ =>
              have hskip : (d.nodes.node id).kind.isReference = false := by rw [hkind]; rfl
              rw [resolve_skip hpending hskip, resolve_skip hpending hskip]
              exact ih (hd₀ rest)

namespace Schema

open Reader

/-- Documents that are alike and agree where their references lead are read alike. -/
theorem read_alike (hdistinct : document.DistinctKeys) (hdistinct' : document'.DistinctKeys)
    (hagree : document.AgreeAt good document') (hroot : document.Alike good document') :
    Schema.read document = Schema.read document' := by
  have hschema : schema document "" document = schema document' "" document' :=
    schema_alike hagree hroot (.refl document) (.refl document')
  have hrun : (do
      let root ← schema document "" document
      resolve document (maxReferences document)
      return root : Reader NodeId).run {} = (do
        let root ← schema document' "" document'
        resolve document' (maxReferences document')
        return root : Reader NodeId).run {} := by
    rw [StateT.run_bind, StateT.run_bind, ← hschema]
    cases hread : (schema document "" document).run {} with
    | error e =>
        show (Except.error e : Except _ _) = .error e
        rfl
    | ok r =>
        obtain ⟨root, d⟩ := r
        have hreads := schema_reads hread
        have hreads' : Reads document' [.located "" document'] {} [root] d := by
          rw [hschema] at hread
          exact schema_reads hread
        have hsound := hreads.sound hdistinct (by simp [Part.Fits]) (by simp [Part.pointer?])
          (Draft.sound_empty document)
        have hsound' := hreads'.sound hdistinct' (by simp [Part.Fits]) (by simp [Part.pointer?])
          (Draft.sound_empty document')
        have hcites : d.CitesOnly good := hreads.citesOnly (by simpa [Part.Cites] using hroot.left)
          ⟨Draft.indexed_empty, fun id reference resolved hkind => by
            rw [Arena.node_of_size_le (Nat.zero_le id)] at hkind
            cases hkind⟩
        have hbudget := hreads.lt_maxReferences
        have hbudget' := hreads'.lt_maxReferences
        have hlarger := hbudget.trans_le (Nat.le_max_left _ (maxReferences document'))
        have hlarger' := hbudget'.trans_le (Nat.le_max_right (maxReferences document) _)
        have hresolve : (resolve document (maxReferences document)).run d =
            (resolve document' (maxReferences document')).run d := by
          calc (resolve document (maxReferences document)).run d
            _ = (resolve document (max (maxReferences document) (maxReferences document'))).run d :=
                resolve_budget hdistinct hsound hbudget hlarger
            _ = (resolve document' (max (maxReferences document)
                  (maxReferences document'))).run d := resolve_alike hagree _ hcites
            _ = (resolve document' (maxReferences document')).run d :=
                resolve_budget hdistinct' hsound' hlarger' hbudget'
        show (do
          resolve document (maxReferences document)
          return root : Reader NodeId).run d = (do
            resolve document' (maxReferences document')
            return root : Reader NodeId).run d
        rw [StateT.run_bind, StateT.run_bind, hresolve]
  unfold Schema.read
  rw [hrun]

/-- A member of the root that is no keyword, and that no reference outside it goes into, has no
effect on what is read. -/
theorem read_unreferenced {key : String} (hkey : key ∉ Keyword.lookedUp)
    (hdistinct : (Json.object members).DistinctKeys)
    (hdistinct' : (Json.object members').DistinctKeys)
    (hsame : ∀ other ≠ key, members.lookup other = members'.lookup other)
    (hcites : (Json.object (members.filter fun m => m.1 ≠ key)).CitesOnly
      fun reference => ¬LeadsInto key reference) :
    Schema.read (.object members) = Schema.read (.object members') := by
  have hlookup : ∀ other ≠ key, (members.filter fun m => m.1 ≠ key).lookup other =
      members.lookup other := fun other hother => lookup_filter_ne hother members
  have hne : ∀ keyword ∈ Keyword.lookedUp, keyword ≠ key := by
    rintro keyword hkeyword rfl
    exact hkey hkeyword
  have hroot : Keyword.Agree (fun reference => ¬LeadsInto key reference) members members' := by
    refine ⟨fun keyword hkeyword => hsame keyword (hne keyword hkeyword), ?_, ?_⟩
    · intro keyword hkeyword part hpart
      rw [← hlookup keyword (hne keyword hkeyword)] at hpart
      exact hcites.member hpart
    · intro reference href
      rw [← hlookup "$ref" (hne _ (by decide))] at href
      exact hcites.reference href
  refine read_alike hdistinct hdistinct' ?_ (.objects hroot)
  intro reference pointer hgood hpointer
  cases htokens : Pointer.tokens? pointer with
  | none =>
      rw [Json.at?, Json.at?, htokens]
      exact .none
  | some tokens =>
      cases tokens with
      | nil =>
          rw [Json.at?, Json.at?, htokens]
          exact .some (.objects hroot)
      | cons first rest =>
          have hfirst : first ≠ key := by
            rintro rfl
            exact hgood ⟨pointer, rest, hpointer, htokens⟩
          rw [Json.at?_of_tokens htokens, Json.at?_of_tokens htokens, ← hsame first hfirst]
          cases hfound : members.lookup first with
          | none => exact .none
          | some value =>
              rw [← hlookup first hfirst] at hfound
              show Option.Rel _ (value.follow? rest) (value.follow? rest)
              cases hpart : value.follow? rest with
              | none => exact .none
              | some part => exact .some (.same ((hcites.member hfound).follow? hpart))

/-- Two properties, one of them a reference to the other, and a member that spells no schema. -/
def pairMembers : Members :=
  [("definitions", .string "#/definitions/pair"),
    ("properties", .object [("first", .object [("$ref", .string "#/properties/second")]),
      ("second", .object [("oneOf", .array [.object [("type", .string "string")]])])])]

def pairSchema : Schema where
  nodes := #[{ kind := .reference "#/properties/second" (some 1) },
    { kind := .union [.primitive .string] },
    { kind := .object { properties := [("first", 0), ("second", 1)] } }]
  root := 2

theorem read_unreferenced_pair :
    Schema.read (.object pairMembers) = .ok pairSchema ∧
      Schema.read (.object (pairMembers.drop 1)) = .ok pairSchema := by
  have hread : Schema.read (.object pairMembers) = .ok pairSchema := by cbv
  have hsame : ∀ other ≠ "definitions", pairMembers.lookup other =
      (pairMembers.drop 1).lookup other := by
    intro other hother
    rw [pairMembers, List.lookup_cons, beq_eq_false_iff_ne.mpr hother]
    rfl
  have hcites : (Json.object (pairMembers.filter fun m => m.1 ≠ "definitions")).CitesOnly
      fun reference => ¬LeadsInto "definitions" reference := by
    intro reference href
    have hreferences : (Json.object (pairMembers.filter fun m => m.1 ≠ "definitions")).references =
        ["#/properties/second"] := by rfl
    rw [hreferences, List.mem_singleton] at href
    rintro ⟨pointer, rest, hpointer, htokens⟩
    have hsecond : Pointer.ofReference? "#/properties/second" = some "/properties/second" := by cbv
    have hinside : Pointer.tokens? "/properties/second" = some ["properties", "second"] := by cbv
    rw [href, hsecond] at hpointer
    cases hpointer
    rw [hinside] at htokens
    exact absurd (List.cons.inj (Option.some.inj htokens)).1 (by decide)
  have heq := read_unreferenced (by decide) (by decide) (by decide) hsame hcites
  exact ⟨hread, heq ▸ hread⟩

end Schema

end SchemaBridge
