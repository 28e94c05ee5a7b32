import SchemaBridge.Proofs.ReachedLocations
import SchemaBridge.Proofs.StepOutcomes

/-!
Reading that succeeds. If every location that is reached spells a schema, the schema at each of them
is read, and so is the target of each reference. The budget for the references suffices, since those
that wait, and the texts whose targets may still have to be read, become fewer with each one. Main
statement: the waiting references are resolved, and only reached locations are read on the way.
-/

namespace SchemaBridge

open Steps

/-! ### Reading one location -/

/-- A part is in the document, at a location that is reached. -/
def Part.Reached (document : Json) (part : Part) : Prop :=
  part.Fits document ∧ ∀ pointer, part.pointer? = some pointer → Reach document pointer

section

variable {document : Json} {pointer : String} {members : Members}

theorem elementParts_reached {base : String} {values : List Json}
    (hbase : document.at? base = some (.array values))
    (hreach : ∀ index < values.length, Reach document (Pointer.element base index)) :
    ∀ part ∈ elementParts base 0 values, part.Reached document := by
  intro part hpart
  refine ⟨elementParts_fit hbase 0 values rfl part hpart, fun pointer hpointer => ?_⟩
  have hmem := List.mem_map_of_mem (f := Part.pointer?) hpart
  rw [map_pointer?_elementParts_zero, hpointer] at hmem
  obtain ⟨index, hindex, heq⟩ := List.mem_map.mp hmem
  rw [← Option.some.inj heq]
  exact hreach index (List.mem_range.mp hindex)

theorem memberParts_reached {base : String} {named : Members}
    (hbase : document.at? base = some (.object named)) (hkeys : (named.map Prod.fst).Nodup)
    (hreach : ∀ name ∈ named.map Prod.fst, Reach document (Pointer.child base name)) :
    ∀ part ∈ memberParts base named, part.Reached document := by
  intro part hpart
  refine ⟨memberParts_fit hbase hkeys part hpart, fun pointer hpointer => ?_⟩
  obtain ⟨m, hm, rfl⟩ := List.mem_map.mp hpart
  rw [← Option.some.inj hpointer]
  exact hreach m.1 (List.mem_map_of_mem hm)

variable (hdistinct : document.DistinctKeys) (hreach : Reach document pointer)
  (hvalue : document.at? pointer = some (.object members))

include hdistinct hreach hvalue

theorem properties_reached (houtline : Outlines document members .object) {named : Members}
    (hnamed : members.lookup "properties" = some (.object named)) :
    ∀ part ∈ memberParts (Pointer.child pointer "properties") named, part.Reached document := by
  have hbase : document.at? (Pointer.child pointer "properties") = some (.object named) := by
    rw [Json.at?_child hvalue]
    exact hnamed
  exact memberParts_reached hbase (hdistinct.at? hbase).keys_nodup
    fun name hname => .part hreach hvalue houtline (.property hnamed hname)

omit hdistinct

theorem branches_reached (houtline : Outlines document members .object) {values : List Json}
    (hvalues : members.lookup "allOf" = some (.array values)) :
    ∀ part ∈ elementParts (Pointer.child pointer "allOf") 0 values, part.Reached document := by
  have hbase : document.at? (Pointer.child pointer "allOf") = some (.array values) := by
    rw [Json.at?_child hvalue]
    exact hvalues
  exact elementParts_reached hbase
    fun index hindex => .part hreach hvalue houtline (.branch hvalues hindex)

theorem tuple_reached (houtline : Outlines document members .array) {values : List Json}
    (hvalues : members.lookup "items" = some (.array values)) :
    ∀ part ∈ elementParts (Pointer.child pointer "items") 0 values, part.Reached document := by
  have hbase : document.at? (Pointer.child pointer "items") = some (.array values) := by
    rw [Json.at?_child hvalue]
    exact hvalues
  exact elementParts_reached hbase
    fun index hindex => .part hreach hvalue houtline (.element hvalues hindex)

theorem items_reached (houtline : Outlines document members .array) {items : Json}
    (hitems : members.lookup "items" = some items) (hlist : ∀ values, items ≠ .array values) :
    (Part.located (Pointer.child pointer "items") items).Reached document := by
  refine ⟨?_, fun part hpart => ?_⟩
  · rw [Part.Fits, Json.at?_child hvalue]
    exact hitems
  · rw [← Option.some.inj hpart]
    exact .part hreach hvalue houtline (.items hitems hlist)

include hdistinct

/-- The parts of an object at a reached location are at reached locations. -/
theorem Assembles.reached {outline : Outline} {parts : List Part} {ids : List NodeId} {kind : Kind}
    (houtline : Outlines document members outline)
    (h : Assembles members pointer outline parts ids kind) :
    ∀ part ∈ parts, part.Reached document := by
  cases h with
  | leaf => simp
  | object hnamed hvalues =>
      refine List.forall_mem_append.mpr ⟨?_, ?_⟩
      · rcases hnamed with hnamed | ⟨-, rfl⟩
        · exact properties_reached hdistinct hreach hvalue houtline hnamed
        · simp [memberParts]
      · rcases hvalues with hvalues | ⟨-, rfl⟩
        · exact branches_reached hreach hvalue houtline hvalues
        · simp [elementParts]
  | bareArray => simp [Part.Reached, Part.Fits, Part.pointer?]
  | tuple hitems => exact tuple_reached hreach hvalue houtline hitems
  | array hitems hlist =>
      simpa using items_reached hreach hvalue houtline hitems hlist

end

theorem Keyword.HoldsText.text?_ok {members : Members} {keyword : String}
    (h : HoldsText members keyword) (pointer : String) :
    ∃ text, text? members keyword pointer = .ok text := by
  unfold text?
  rcases h with hnone | ⟨text, hsome⟩
  · exact ⟨none, by rw [hnone]⟩
  · exact ⟨some text, by rw [hsome]⟩

/-- Every location that is reached spells a schema. -/
def SpellsReached (document : Json) : Prop :=
  ∀ pointer, Reach document pointer →
    ∃ value, document.at? pointer = some value ∧ SpellsSchema document value

theorem not_spelled {document : Json} {pointer : String} {value : Json}
    (hspells : SpellsReached document)
    (h : (Part.located pointer value).Reached document) (hvalue : ¬SpellsSchema document value) :
    False := by
  obtain ⟨value', hvalue', hschema⟩ := hspells pointer (h.2 pointer rfl)
  have hat : document.at? pointer = some value := h.1
  rw [hat] at hvalue'
  cases hvalue'
  exact hvalue hschema

namespace Reader

variable {document : Json}

mutual
/-- The schema at a location that is reached is read. -/
theorem schema_succeeds (hdistinct : document.DistinctKeys) (hspells : SpellsReached document)
    {pointer : String} : ∀ {value : Json},
    (Part.located pointer value).Reached document → Succeeds (schema document pointer value)
  | .bool true, _ => by
    rw [schema]
    exact .modifyGet _
  | .object members, ⟨hvalue, hreach⟩ => by
    obtain ⟨value, hvalue', hschema⟩ := hspells pointer (hreach pointer rfl)
    have hat : document.at? pointer = some (.object members) := hvalue
    rw [hat] at hvalue'
    cases hvalue'
    cases hschema with
    | @object _ outline htitle hdescription houtline hshape =>
        obtain ⟨title, ht⟩ := htitle.text?_ok pointer
        obtain ⟨description, hd⟩ := hdescription.text?_ok pointer
        have ho := Outline.read_of_outlines (Json.within_of_at? hat) houtline pointer
        rw [schema]
        refine .lift_bind ht (.lift_bind hd (.lift_bind ho ?_))
        cases outline with
        | leaf kind => exact (Succeeds.pure kind).bind fun _ _ _ _ => .modifyGet _
        | object =>
            exact (object_succeeds hdistinct hspells hat (hreach pointer rfl) houtline hshape).bind
              fun _ _ _ _ => .modifyGet _
        | array =>
            exact (array_succeeds hdistinct hspells hat (hreach pointer rfl) houtline).bind
              fun _ _ _ _ => .modifyGet _
  | .bool false, h => (not_spelled hspells h (by rintro ⟨⟩)).elim
  | .null, h => (not_spelled hspells h (by rintro ⟨⟩)).elim
  | .number _, h => (not_spelled hspells h (by rintro ⟨⟩)).elim
  | .string _, h => (not_spelled hspells h (by rintro ⟨⟩)).elim
  | .array _, h => (not_spelled hspells h (by rintro ⟨⟩)).elim
termination_by value => 4 * value.size
decreasing_by all_goals simp only [Json.size]; omega

theorem object_succeeds (hdistinct : document.DistinctKeys) (hspells : SpellsReached document)
    {pointer : String} {members : Members}
    (hvalue : document.at? pointer = some (.object members)) (hreach : Reach document pointer)
    (houtline : Outlines document members .object)
    (hshape : Outline.WellShaped members .object) : Succeeds (object document pointer members) := by
  obtain ⟨named, names, values, hnamed, hnames, hdeclared, hvalues⟩ := hshape
  rw [object]
  refine (declaredProperties_succeeds hdistinct hspells hvalue hreach houtline hnamed).bind
    fun properties d d' hproperties => ?_
  obtain ⟨named', ids, hnamed', hlength, rfl, -⟩ := declaredProperties_reads hproperties
  have hkeys : ((named'.map Prod.fst).zip ids).map Prod.fst = named'.map Prod.fst := by
    rw [List.map_fst_zip]
    rw [List.length_map, hlength]
  rw [← hnamed.unique hnamed', ← hkeys] at hdeclared
  obtain ⟨found, hfound⟩ := (required_iff hnames).mpr hdeclared
  refine .lift_bind hfound ?_
  exact (branches_succeeds hdistinct hspells hvalue hreach houtline hvalues).bind
    fun _ _ _ _ => .pure _
termination_by 4 * Json.sizeMembers members + 3

theorem declaredProperties_succeeds (hdistinct : document.DistinctKeys)
    (hspells : SpellsReached document) {pointer : String} {members named : Members}
    (hvalue : document.at? pointer = some (.object members)) (hreach : Reach document pointer)
    (houtline : Outlines document members .object)
    (hnamed : Keyword.HoldsMembers members "properties" named) :
    Succeeds (declaredProperties document pointer members) := by
  rw [declaredProperties]
  split
  · exact .pure []
  · rename_i hlookup
    exact properties_succeeds hdistinct hspells
      (properties_reached hdistinct hreach hvalue houtline hlookup)
  · rename_i hother hlookup
    exact (hother _ (hnamed.value_eq hlookup)).elim
termination_by 4 * Json.sizeMembers members + 2
decreasing_by
  have := Json.size_le_sizeMembers ‹members.lookup "properties" = _›
  simp only [Json.size] at this
  omega

theorem branches_succeeds (hdistinct : document.DistinctKeys) (hspells : SpellsReached document)
    {pointer : String} {members : Members} {values : List Json}
    (hvalue : document.at? pointer = some (.object members)) (hreach : Reach document pointer)
    (houtline : Outlines document members .object)
    (hvalues : Keyword.HoldsList members "allOf" values) :
    Succeeds (branches document pointer members) := by
  rw [branches]
  split
  · exact .pure []
  · rename_i hlookup
    exact elements_succeeds hdistinct hspells (branches_reached hreach hvalue houtline hlookup)
  · rename_i hother hlookup
    exact (hother _ (hvalues.value_eq hlookup)).elim
termination_by 4 * Json.sizeMembers members + 2
decreasing_by
  have := Json.size_le_sizeMembers ‹members.lookup "allOf" = _›
  simp only [Json.size] at this
  omega

theorem array_succeeds (hdistinct : document.DistinctKeys) (hspells : SpellsReached document)
    {pointer : String} {members : Members}
    (hvalue : document.at? pointer = some (.object members)) (hreach : Reach document pointer)
    (houtline : Outlines document members .array) :
    Succeeds (array document pointer members) := by
  rw [array]
  split
  · exact (Succeeds.modifyGet _).bind fun _ _ _ _ => .pure _
  · rename_i hitems
    exact (elements_succeeds hdistinct hspells (tuple_reached hreach hvalue houtline hitems)).bind
      fun _ _ _ _ => .pure _
  · rename_i items hlist hitems
    have hreached := items_reached hreach hvalue houtline hitems hlist
    exact (schema_succeeds hdistinct hspells hreached).bind fun _ _ _ _ => .pure _
termination_by 4 * Json.sizeMembers members + 2
decreasing_by
  · have := Json.size_le_sizeMembers ‹members.lookup "items" = _›
    simp only [Json.size] at this
    omega
  · have := Json.size_le_sizeMembers ‹members.lookup "items" = _›
    omega

theorem properties_succeeds (hdistinct : document.DistinctKeys) (hspells : SpellsReached document)
    {base : String} : ∀ {named : Members},
    (∀ part ∈ memberParts base named, part.Reached document) →
    Succeeds (Reader.properties document base named)
  | [], _ => by
    rw [Reader.properties]
    exact .pure []
  | (name, value) :: rest, h => by
    obtain ⟨hvalue, hrest⟩ := List.forall_mem_cons.mp h
    rw [Reader.properties]
    exact (schema_succeeds hdistinct hspells hvalue).bind fun _ _ _ _ =>
      (properties_succeeds hdistinct hspells hrest).bind fun _ _ _ _ => .pure _
termination_by named => 4 * Json.sizeMembers named + 1
decreasing_by
  all_goals
    have := value.size_pos
    simp only [Json.sizeMembers]
    omega

theorem elements_succeeds (hdistinct : document.DistinctKeys) (hspells : SpellsReached document)
    {base : String} {index : Nat} : ∀ {values : List Json},
    (∀ part ∈ elementParts base index values, part.Reached document) →
    Succeeds (elements document base index values)
  | [], _ => by
    rw [elements]
    exact .pure []
  | value :: rest, h => by
    obtain ⟨hvalue, hrest⟩ := List.forall_mem_cons.mp h
    rw [elements]
    exact (schema_succeeds hdistinct hspells hvalue).bind fun _ _ _ _ =>
      (elements_succeeds hdistinct hspells hrest).bind fun _ _ _ _ => .pure _
termination_by values => 4 * Json.sizeElements values + 1
decreasing_by
  all_goals
    have := value.size_pos
    simp only [Json.sizeElements]
    omega
end

end Reader

/-! ### How many references wait -/

namespace Part

/-- How many values a part has. -/
def size : Part → Nat
  | located _ value => value.size
  | bare => 0

def sizeAll (parts : List Part) : Nat :=
  (parts.map size).sum

@[simp] theorem sizeAll_cons (part : Part) (parts : List Part) :
    sizeAll (part :: parts) = part.size + sizeAll parts := by
  simp [sizeAll]

theorem sizeAll_append (xs ys : List Part) : sizeAll (xs ++ ys) = sizeAll xs + sizeAll ys := by
  simp [sizeAll]

theorem sizeAll_memberParts (base : String) (named : Members) :
    sizeAll (memberParts base named) = Json.sizeMembers named := by
  induction named with
  | nil => rfl
  | cons m rest ih =>
      rw [show memberParts base (m :: rest) = .located (Pointer.child base m.1) m.2 ::
        memberParts base rest from rfl, sizeAll_cons, ih]
      rfl

theorem sizeAll_elementParts (base : String) (index : Nat) (values : List Json) :
    sizeAll (elementParts base index values) = Json.sizeElements values := by
  induction values generalizing index with
  | nil => rfl
  | cons value rest ih =>
      rw [elementParts, sizeAll_cons, ih]
      rfl

end Part

/-- The parts of an object have room in it. -/
theorem Assembles.size_le {members : Members} {pointer : String} {outline : Outline}
    {parts : List Part} {ids : List NodeId} {kind : Kind}
    (h : Assembles members pointer outline parts ids kind) :
    Part.sizeAll parts ≤ Json.sizeMembers members := by
  have hmember : ∀ {keyword value}, members.lookup keyword = some value →
      value.size ≤ Json.sizeMembers members := fun hlookup => Json.size_le_sizeMembers hlookup
  cases h with
  | leaf => exact Nat.zero_le _
  | object hnamed hvalues =>
      rw [Part.sizeAll_append, Part.sizeAll_memberParts, Part.sizeAll_elementParts]
      rcases hnamed with hnamed | ⟨-, rfl⟩ <;> rcases hvalues with hvalues | ⟨-, rfl⟩
      · have hle := Json.size_add_size_le_sizeMembers (by decide) hnamed hvalues
        simp only [Json.size] at hle
        omega
      · have hle := hmember hnamed
        simp only [Json.size] at hle
        simp only [Json.sizeElements]
        omega
      · have hle := hmember hvalues
        simp only [Json.size] at hle
        simp only [Json.sizeMembers]
        omega
      · exact Nat.zero_le _
  | bareArray => exact Nat.zero_le _
  | tuple hitems =>
      have hle := hmember hitems
      rw [Part.sizeAll_elementParts]
      simp only [Json.size] at hle
      omega
  | array hitems =>
      have hle := hmember hitems
      simpa [Part.sizeAll, Part.size] using hle

theorem Draft.length_pending_place (d : Draft) (pointer : String) (n : Node) :
    (d.place pointer n).2.pending.length ≤ d.pending.length + 1 := by
  rw [place]
  split
  · exact Nat.le_refl _
  · exact Nat.le_succ _

/-- Reading parts adds fewer references than the parts have values. -/
theorem Reads.length_pending_le {document : Json} {parts : List Part} {d d' : Draft}
    {ids : List NodeId} (h : Reads document parts d ids d') :
    d'.pending.length ≤ d.pending.length + Part.sizeAll parts := by
  induction h with
  | nil d => exact Nat.le_refl _
  | bare _ ih => simpa [Part.size, Draft.push] using ih
  | @any d d' pointer rest ids _ ih =>
      have hplace := d.length_pending_place pointer { kind := .untyped }
      rw [Part.sizeAll_cons]
      simp only [Part.size, Json.size]
      omega
  | @object d d₁ d' pointer members title description outline inner rest innerIds ids kind
      _ _ _ hkind _ _ ihinner ih =>
      have hplace := d₁.length_pending_place pointer { title, description, kind }
      have hinner := hkind.size_le
      rw [Part.sizeAll_cons]
      simp only [Part.size, Json.size]
      omega

/-- Reading parts at reached locations adds only reached locations. -/
theorem Reads.locations_reached {document : Json} (hdistinct : document.DistinctKeys)
    {parts : List Part} {d d' : Draft} {ids : List NodeId} (h : Reads document parts d ids d')
    (hparts : ∀ part ∈ parts, part.Reached document)
    (hd : ∀ e ∈ d.locations, Reach document e.1) : ∀ e ∈ d'.locations, Reach document e.1 := by
  induction h with
  | nil d => exact hd
  | bare _ ih => exact ih (List.forall_mem_cons.mp hparts).2 hd
  | any _ ih =>
      obtain ⟨hpart, hparts⟩ := List.forall_mem_cons.mp hparts
      exact ih hparts (List.forall_mem_cons.mpr ⟨hpart.2 _ rfl, hd⟩)
  | object _ _ houtline hkind _ _ ihinner ih =>
      obtain ⟨hpart, hparts⟩ := List.forall_mem_cons.mp hparts
      have hreach := hpart.2 _ rfl
      have hinner := hkind.reached hdistinct hreach hpart.1 (Outline.read_ok houtline)
      exact ih hparts (List.forall_mem_cons.mpr ⟨hreach, ihinner hinner hd⟩)

/-- How many texts of the document are references to locations that have not been read. -/
def Draft.unread (document : Json) (d : Draft) : Nat :=
  document.texts.countP fun text =>
    (Pointer.ofReference? text).any fun pointer => decide (pointer ∉ d.locations.map Prod.fst)

theorem Draft.unread_le_size (document : Json) (d : Draft) : d.unread document ≤ document.size :=
  List.countP_le_length.trans document.length_texts_le

/-- Once its target is read, a reference is no longer counted. -/
theorem Draft.unread_lt {document : Json} {d d' : Draft} {reference pointer : String}
    (hgrows : ∀ p, p ∈ d.locations.map Prod.fst → p ∈ d'.locations.map Prod.fst)
    (htext : reference ∈ document.texts) (hpointer : Pointer.ofReference? reference = some pointer)
    (hbefore : pointer ∉ d.locations.map Prod.fst) (hafter : pointer ∈ d'.locations.map Prod.fst) :
    d'.unread document < d.unread document := by
  refine countP_lt_countP (fun text hunread => ?_) htext ?_ ?_
  · cases htarget : Pointer.ofReference? text with
    | none => rw [htarget] at hunread; cases hunread
    | some p =>
        simp only [htarget, Option.any_some, decide_eq_true_eq] at hunread ⊢
        exact fun hmem => hunread (hgrows p hmem)
  · simp only [hpointer, Option.any_some, hafter, not_true, decide_false]
  · simp only [hpointer, Option.any_some, hbefore, not_false_eq_true, decide_true]

/-- After the root is read, fewer references may have to wait than the budget allows. -/
theorem Reads.lt_maxReferences {document : Json} {pointer : String} {ids : List NodeId} {d : Draft}
    (h : Reads document [.located pointer document] {} ids d) :
    d.pending.length + d.unread document * document.size < Reader.maxReferences document := by
  have hpending : d.pending.length ≤ document.size := by
    simpa [Part.sizeAll, Part.size] using h.length_pending_le
  have hunread := Nat.mul_le_mul_right document.size (d.unread_le_size document)
  rw [Reader.maxReferences, Nat.succ_mul, Nat.mul_succ]
  omega

/-! ### Resolving the references -/

/-- A reference is read from an object that has the keyword of one. -/
theorem Draft.Sound.reference_at {document : Json} {d : Draft} (h : d.Sound document) {id : Nat}
    {reference : String} {resolved : Option NodeId}
    (hkind : (d.nodes.node id).kind = .reference reference resolved) :
    ∃ pointer members, d.pointer? id = some pointer ∧
      document.at? pointer = some (.object members) ∧
      members.lookup "$ref" = some (.string reference) := by
  have hat := h.node id (Arena.lt_size_of_reference hkind)
  cases hplace : d.pointer? id with
  | none =>
      rw [(hat.unlocated hplace).1] at hkind
      cases hkind
  | some pointer =>
      obtain ⟨value, hvalue, hdescribes⟩ := hat.located pointer hplace
      generalize d.nodes.node id = node at hkind hdescribes
      cases hdescribes with
      | any => cases hkind
      | @object members _ _ _ hspells =>
          rw [hkind] at hspells
          refine ⟨pointer, members, rfl, hvalue, ?_⟩
          cases hspells with
          | reference houtline => cases houtline; assumption
          | leaf _ hnone => cases hnone

/-- A reading on demand leaves fewer texts whose targets are to be read. -/
theorem Reads.unread_lt {document : Json} {d d₁ : Draft} {id found : NodeId} {rest : List NodeId}
    {reference pointer : String} {resolved : Option NodeId} {value : Json}
    (h : Reads document [.located pointer value] { d with pending := rest } [found] d₁)
    (hd : d.Sound document) (hkind : (d.nodes.node id).kind = .reference reference resolved)
    (hpointer : Pointer.ofReference? reference = some pointer)
    (hunknown : d.locations.lookup pointer = none) : d₁.unread document < d.unread document := by
  obtain ⟨place, members, -, hvalue, href⟩ := hd.reference_at hkind
  have htext := (Json.within_of_at? hvalue).text_mem href
  obtain ⟨fresh, hfresh, -⟩ := h.grows.locations
  have hbefore : pointer ∉ d.locations.map Prod.fst := by
    rw [← lookup_ne_none_iff, not_not]
    exact hunknown
  apply Draft.unread_lt _ htext hpointer hbefore
  · have hplaced := h.pointer?_target (hd.setPending rest).indexed
    exact List.mem_map_of_mem (f := Prod.fst) (Draft.mem_of_pointer? hplaced)
  · intro p hp
    rw [hfresh, List.map_append]
    exact List.mem_append_right _ hp

namespace Reader

theorem resolve_step {document : Json} {budget : Nat} {d : Draft} {id : NodeId}
    {rest : List NodeId} {reference : String} {resolved : Option NodeId}
    (hpending : d.pending = id :: rest)
    (hkind : (d.nodes.node id).kind = .reference reference resolved) :
    (resolve document (budget + 1)).run d =
      (do
        let found ← target document reference
        modify (·.bind id found)
        resolve document budget : Reader Unit).run { d with pending := rest } := by
  rw [resolve, run_get_bind]
  simp only [hpending]
  rw [run_set_bind]
  simp only [hkind]

theorem resolve_skip {document : Json} {budget : Nat} {d : Draft} {id : NodeId}
    {rest : List NodeId} (hpending : d.pending = id :: rest)
    (hkind : (d.nodes.node id).kind.isReference = false) :
    (resolve document (budget + 1)).run d =
      (resolve document budget).run { d with pending := rest } := by
  rw [resolve, run_get_bind]
  simp only [hpending]
  rw [run_set_bind]
  cases hk : (d.nodes.node id).kind with
  | reference => rw [hk] at hkind; cases hkind
  | _ => rfl

section

variable {document : Json} (hdistinct : document.DistinctKeys) (hspells : SpellsReached document)

include hspells

theorem exists_link {pointer reference : String} {members : Members}
    (hreach : Reach document pointer) (hvalue : document.at? pointer = some (.object members))
    (href : members.lookup "$ref" = some (.string reference)) :
    ∃ target, Pointer.ofReference? reference = some target ∧ LinksTo document pointer target := by
  obtain ⟨value, hvalue', hschema⟩ := hspells pointer hreach
  rw [hvalue] at hvalue'
  cases hvalue'
  cases hschema with
  | object _ _ houtline hshape =>
      obtain ⟨_, ⟨⟩, rfl⟩ := houtline.eq_reference href
      obtain ⟨target, htarget⟩ := Pointer.ofReference?_isSome_iff.mpr hshape
      exact ⟨target, htarget, members, reference, hvalue, href, htarget⟩

include hdistinct

theorem target_succeeds {reference pointer : String}
    (hpointer : Pointer.ofReference? reference = some pointer) (hreach : Reach document pointer) :
    Succeeds (target document reference) := by
  have href : Keyword.referencePointer reference = .ok pointer := by
    rw [Keyword.referencePointer, hpointer]
  refine .lift_bind href fun d => ?_
  obtain ⟨value, hvalue, -⟩ := hspells pointer hreach
  have hreached : (Part.located pointer value).Reached document := by
    refine ⟨hvalue, fun p hp => ?_⟩
    rw [← Option.some.inj hp]
    exact hreach
  obtain ⟨id, d', hread⟩ := schema_succeeds hdistinct hspells hreached d
  cases hknown : d.locations.lookup pointer with
  | some known =>
      refine ⟨known, d, ?_⟩
      rw [run_get_bind]
      simp only [hknown]
      rfl
  | none => exact ⟨id, d', by simpa [hknown, hvalue] using hread⟩

omit hspells in
/-- Resolving the first of the waiting references keeps the draft sound, and fewer references may
still have to wait. -/
theorem bind_lowers {d d₁ : Draft} {id found : NodeId} {rest : List NodeId} {reference : String}
    {resolved : Option NodeId} (hd : d.Sound document) (hpending : d.pending = id :: rest)
    (hkind : (d.nodes.node id).kind = .reference reference resolved)
    (hfound : (target document reference).run { d with pending := rest } = .ok (found, d₁)) :
    (d₁.bind id found).Sound document ∧ d₁.pending.length + d₁.unread document * document.size <
      d.pending.length + d.unread document * document.size := by
  have hd₀ := hd.setPending rest
  rw [hpending, List.length_cons]
  obtain ⟨place, hplace, ⟨hknown, rfl⟩ | ⟨hunknown, value, hvalue, hreads⟩⟩ := target_ok hfound
  · refine ⟨hd₀.bind hkind hplace (hd.indexed.pointer?_of_lookup hknown), ?_⟩
    show rest.length + d.unread document * document.size < _
    omega
  · have hsound := hreads.sound hdistinct (by simpa [Part.Fits] using hvalue)
      (by simp [Part.pointer?]) hd₀
    have hkind' := hkind
    rw [← hreads.grows.node_eq id (Arena.lt_size_of_reference hkind)] at hkind'
    refine ⟨hsound.bind hkind' hplace (hreads.pointer?_target hd₀.indexed), ?_⟩
    -- the texts whose targets are unread become fewer, which pays for all that the target adds
    have hlength : d₁.pending.length ≤ rest.length + value.size := hreads.length_pending_le
    have hsize := (Json.within_of_at? hvalue).size_le
    have hunread := hreads.unread_lt hd hkind hplace hunknown
    have hle := Nat.mul_le_mul_right document.size hunread
    rw [Nat.succ_mul] at hle
    omega

omit hspells in
/-- Resolving a reference to a reached location leaves only reached locations in the draft. -/
theorem target_reached {d d₁ : Draft} {found : NodeId} {rest : List NodeId}
    {reference place : String} (hlocations : ∀ e ∈ d.locations, Reach document e.1)
    (hplace : Pointer.ofReference? reference = some place) (hreach : Reach document place)
    (hfound : (target document reference).run { d with pending := rest } = .ok (found, d₁)) :
    ∀ e ∈ d₁.locations, Reach document e.1 := by
  obtain ⟨place', hplace', ⟨-, rfl⟩ | ⟨-, value, hvalue, hreads⟩⟩ := target_ok hfound
  · exact hlocations
  · rw [hplace] at hplace'
    cases hplace'
    have hreached : ∀ part ∈ [Part.located place value], part.Reached document := by
      simpa [Part.Reached, Part.Fits, Part.pointer?] using ⟨hvalue, hreach⟩
    exact hreads.locations_reached hdistinct hreached hlocations

/-- The waiting references are resolved, as long as the budget exceeds what may still wait: each
one that waits, and as many as there are values for each text that may be read on demand. -/
theorem resolve_succeeds {budget : Nat} : ∀ {d : Draft}, d.Sound document →
    (∀ e ∈ d.locations, Reach document e.1) →
    d.pending.length + d.unread document * document.size < budget →
    ∃ d', (resolve document budget).run d = .ok ((), d') ∧
      ∀ e ∈ d'.locations, Reach document e.1 := by
  induction budget with
  | zero =>
      intro d _ _ hbudget
      exact absurd hbudget (Nat.not_lt_zero _)
  | succ budget ih =>
      intro d hd hlocations hbudget
      cases hpending : d.pending with
      | nil =>
          refine ⟨d, ?_, hlocations⟩
          rw [resolve, run_get_bind]
          simp only [hpending]
          rfl
      | cons id rest =>
          cases hkind : (d.nodes.node id).kind with
          | reference reference resolved =>
              obtain ⟨pointer, members, hplace, hvalue, href⟩ := hd.reference_at hkind
              have hreach := hlocations _ (Draft.mem_of_pointer? hplace)
              obtain ⟨place, hplace', hlink⟩ := exists_link hspells hreach hvalue href
              have htarget : Reach document place := .target hreach hlink
              obtain ⟨found, d₁, hfound⟩ :=
                target_succeeds hdistinct hspells hplace' htarget { d with pending := rest }
              obtain ⟨hsound, hless⟩ := bind_lowers hdistinct hd hpending hkind hfound
              have hlocations₁ := target_reached hdistinct hlocations hplace' htarget hfound
              have hbudget₁ : (d₁.bind id found).pending.length +
                  (d₁.bind id found).unread document * document.size < budget :=
                Nat.lt_of_lt_of_le hless (Nat.le_of_lt_succ hbudget)
              obtain ⟨d', hrest, hreached⟩ := ih hsound hlocations₁ hbudget₁
              refine ⟨d', ?_, hreached⟩
              rw [resolve_step hpending hkind, StateT.run_bind, hfound]
              exact hrest
          | _ =>
              rw [resolve_skip hpending (by rw [hkind]; rfl)]
              apply ih (hd.setPending rest) hlocations
              rw [hpending, List.length_cons] at hbudget
              show rest.length + d.unread document * document.size < budget
              omega

end

end Reader

end SchemaBridge
