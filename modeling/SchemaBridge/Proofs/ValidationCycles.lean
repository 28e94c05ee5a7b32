import SchemaBridge.Proofs.FirstViolation
import SchemaBridge.Proofs.NodeLinks

/-!
Circles in a validation. References and branches check the value they were given, so a circle of
them checks one value for ever, and only an object has branches to check. The targets entered at a
location all lie on the way from the node checked there first to the current one. Main statement: a
check fails with a cycle exactly where such a circle is entered, and where one is reachable from a
node checked against an object, the check fails.
-/

namespace SchemaBridge

/-- The links along which a check of a value stays at that value. -/
def Link.inPlaceAt : Json → List Link
  | .object _ => inPlace
  | _ => [.target]

theorem InstancePath.value?_child {path : InstancePath} {segment : Segment} {value v w : Json}
    (h : path.value? value = some v) (hpart : v.part? segment = some w) :
    (path.child segment).value? value = some w := by
  induction path generalizing value with
  | nil =>
      cases h
      rw [InstancePath.child, List.nil_append, InstancePath.value?, hpart]
      rfl
  | cons first rest ih =>
      obtain ⟨u, hu, hrest⟩ := Option.bind_eq_some_iff.mp h
      rw [InstancePath.child, List.cons_append, InstancePath.value?, hu]
      exact ih hrest

namespace Schema

/-- The check of a value comes to a node at the location of a path, where a value stands. The node
checked first at that location is told too: references and branches lead from it to the other. -/
inductive Checks (s : Schema) (value : Json) : InstancePath → NodeId → NodeId → Json → Prop
  | root : Checks s value [] s.root s.root value
  | element {path : InstancePath} {first id items : NodeId} {values : List Json} {position : Nat}
      {v : Json} (h : Checks s value path first id (.array values))
      (hkind : (s.node id).kind = .array items) (hv : values[position]? = some v) :
      Checks s value (path.child (.index position)) items items v
  | position {path : InstancePath} {first id c : NodeId} {ids : List NodeId} {values : List Json}
      {position : Nat} {v : Json} (h : Checks s value path first id (.array values))
      (hkind : (s.node id).kind = .tuple ids) (hlength : values.length = ids.length)
      (hc : ids[position]? = some c) (hv : values[position]? = some v) :
      Checks s value (path.child (.index position)) c c v
  | property {path : InstancePath} {first id c : NodeId} {shape : ObjectShape} {members : Members}
      {name : String} {v : Json} (h : Checks s value path first id (.object members))
      (hkind : (s.node id).kind = .object shape) (hmem : (name, c) ∈ shape.properties)
      (hv : members.lookup name = some v) : Checks s value (path.child (.key name)) c c v
  | branch {path : InstancePath} {first id c : NodeId} {shape : ObjectShape} {members : Members}
      (h : Checks s value path first id (.object members))
      (hkind : (s.node id).kind = .object shape) (hmem : c ∈ shape.allOf) :
      Checks s value path first c (.object members)
  | target {path : InstancePath} {first id next : NodeId} {text : String} {v : Json}
      (h : Checks s value path first id v)
      (hkind : (s.node id).kind = .reference text (some next)) : Checks s value path first next v

variable {s : Schema}

/-- The value that is checked is the one that the path leads to. -/
theorem Checks.value? {value v : Json} {path : InstancePath} {first id : NodeId}
    (h : s.Checks value path first id v) : path.value? value = some v := by
  induction h with
  | root => rfl
  | element _ _ hv ih => exact InstancePath.value?_child ih hv
  | position _ _ _ _ hv ih => exact InstancePath.value?_child ih hv
  | property _ _ _ hv ih => exact InstancePath.value?_child ih hv
  | branch _ _ _ ih => exact ih
  | target _ _ ih => exact ih

/-- A reference that is checked at an object leads to a node on a circle of references and branches,
and the node that is checked first at that location leads to it in the same way. -/
structure RunsInCircle (s : Schema) (value : Json) (path : InstancePath) (text : String)
    (first target : NodeId) : Prop where
  object : ∃ id members, s.Checks value path first id (.object members) ∧
    (s.node id).kind = .reference text (some target) ∧ s.Walks Link.inPlace target id
  start : s.Walks Link.inPlace first target
  circle : s.OnCycle Link.inPlace target

end Schema

namespace Validation

variable {s : Schema}

/-- Where the check by a kind has an error from that is no violation: from the check of a part, of a
branch or of a target, or from a target that was entered before. -/
inductive Raises (check : Checker) (f : Frame) (e : ValidationError) : Kind → Prop
  | element {items : NodeId} {values : List Json} {index : Nat} {v : Json}
      (hvalue : f.value = .array values) (hv : values[index]? = some v)
      (hrun : check items (f.descend (.index index) v) = .error e) :
      Raises check f e (.array items)
  | position {ids : List NodeId} {values : List Json} {index : Nat} {c : NodeId} {v : Json}
      (hvalue : f.value = .array values) (hlength : values.length = ids.length)
      (hc : ids[index]? = some c) (hv : values[index]? = some v)
      (hrun : check c (f.descend (.index index) v) = .error e) : Raises check f e (.tuple ids)
  | property {shape : ObjectShape} {members : Members} {name : String} {c : NodeId} {v : Json}
      (hvalue : f.value = .object members) (hmem : (name, c) ∈ shape.properties)
      (hv : members.lookup name = some v)
      (hrun : check c (f.descend (.key name) v) = .error e) : Raises check f e (.object shape)
  | branch {shape : ObjectShape} {members : Members} {c : NodeId}
      (hvalue : f.value = .object members) (hmem : c ∈ shape.allOf)
      (hrun : check c f = .error e) : Raises check f e (.object shape)
  | target {text : String} {next : NodeId} (hfresh : next ∉ f.entered)
      (hrun : check next (f.enter next) = .error e) : Raises check f e (.reference text (some next))
  | reentry {text : String} {next : NodeId} (hentered : next ∈ f.entered)
      (herror : e = .cycle f.path text) : Raises check f e (.reference text (some next))

/-- An error that is not a violation. -/
def IsBreak (e : ValidationError) : Prop :=
  ∀ path violation, e ≠ .invalid path violation

theorem IsBreak.cycle (path : InstancePath) (text : String) : IsBreak (.cycle path text) :=
  fun _ _ h => nomatch h

theorem IsBreak.tooDeep : IsBreak .tooDeep :=
  fun _ _ h => nomatch h

variable {check : Checker} {f : Frame} {e : ValidationError}

theorem IsBreak.not_fail (he : IsBreak e) {violation : Violation}
    (h : f.fail violation = .error e) : False :=
  he _ _ (Except.error.inj h).symm

theorem IsBreak.not_expect (he : IsBreak e) {type : JsonType} (h : f.expect type = .error e) :
    False := by
  rw [Frame.expect] at h
  split at h
  · cases h
  · exact he.not_fail h

theorem checkElements_error_mem {items : NodeId} {index : Nat} {values : List Json}
    (h : checkElements check f items index values = .error e) :
    ∃ place v, values[place]? = some v ∧
      check items (f.descend (.index (index + place)) v) = .error e := by
  induction values generalizing index with
  | nil => cases h
  | cons v rest ih =>
      rw [checkElements] at h
      rcases andThen_error h with hfirst | ⟨-, hlater⟩
      · exact ⟨0, v, rfl, hfirst⟩
      · obtain ⟨place, w, hw, hrun⟩ := ih hlater
        refine ⟨place + 1, w, hw, ?_⟩
        rwa [Nat.add_right_comm, Nat.add_assoc] at hrun

theorem checkTuple_error_mem {index : Nat} {ids : List NodeId} {values : List Json}
    (h : checkTuple check f index ids values = .error e) :
    ∃ place c v, ids[place]? = some c ∧ values[place]? = some v ∧
      check c (f.descend (.index (index + place)) v) = .error e := by
  induction ids generalizing index values with
  | nil => cases values <;> cases h
  | cons c ids ih =>
      cases values with
      | nil => cases h
      | cons v rest =>
          rw [checkTuple] at h
          rcases andThen_error h with hfirst | ⟨-, hlater⟩
          · exact ⟨0, c, v, rfl, rfl, hfirst⟩
          · obtain ⟨place, c', w, hc, hw, hrun⟩ := ih hlater
            refine ⟨place + 1, c', w, hc, hw, ?_⟩
            rwa [Nat.add_right_comm, Nat.add_assoc] at hrun

theorem checkProperties_error_mem {members : Members} {properties : List (String × NodeId)}
    (h : checkProperties check f members properties = .error e) :
    ∃ name c v, (name, c) ∈ properties ∧ members.lookup name = some v ∧
      check c (f.descend (.key name) v) = .error e := by
  induction properties with
  | nil => cases h
  | cons p rest ih =>
      obtain ⟨name, c⟩ := p
      rw [checkProperties] at h
      have hfirst : checkProperties check f members rest = .error e →
          ∃ name' c' v, (name', c') ∈ (name, c) :: rest ∧ members.lookup name' = some v ∧
            check c' (f.descend (.key name') v) = .error e := by
        intro hlater
        obtain ⟨name', c', v, hmem, hrun⟩ := ih hlater
        exact ⟨name', c', v, List.mem_cons_of_mem _ hmem, hrun⟩
      split at h
      · rename_i v hv
        rcases andThen_error h with hrun | ⟨-, hlater⟩
        · exact ⟨name, c, v, List.mem_cons_self, hv, hrun⟩
        · exact hfirst hlater
      · rcases andThen_error h with hrun | ⟨-, hlater⟩
        · cases hrun
        · exact hfirst hlater

theorem checkBranches_error_mem {ids : List NodeId} (h : checkBranches check f ids = .error e) :
    ∃ c ∈ ids, check c f = .error e := by
  induction ids with
  | nil => cases h
  | cons c rest ih =>
      rw [checkBranches] at h
      rcases andThen_error h with hfirst | ⟨-, hlater⟩
      · exact ⟨c, List.mem_cons_self, hfirst⟩
      · obtain ⟨c', hmem, hrun⟩ := ih hlater
        exact ⟨c', List.mem_cons_of_mem _ hmem, hrun⟩

/-- An error that is no violation comes from a nested check, or from a target entered before. -/
theorem checkKind_raises (he : IsBreak e) {kind : Kind} (h : checkKind check kind f = .error e) :
    Raises check f e kind := by
  cases kind with
  | untyped => cases h
  | primitive type => exact (he.not_expect h).elim
  | enumeration literals =>
      rw [checkKind] at h
      split at h
      · cases h
      · exact (he.not_fail h).elim
  | array items =>
      rw [checkKind] at h
      split at h
      · rename_i values hvalue
        obtain ⟨place, v, hv, hrun⟩ := checkElements_error_mem h
        rw [Nat.zero_add] at hrun
        exact .element hvalue hv hrun
      · exact (he.not_expect h).elim
  | tuple ids =>
      rw [checkKind] at h
      split at h
      · rename_i values hvalue
        split at h
        · rename_i hlength
          obtain ⟨place, c, v, hc, hv, hrun⟩ := checkTuple_error_mem h
          rw [Nat.zero_add] at hrun
          exact .position hvalue hlength hc hv hrun
        · exact (he.not_fail h).elim
      · exact (he.not_expect h).elim
  | object shape =>
      rw [checkKind] at h
      split at h
      · rename_i members hvalue
        split at h
        · exact (he.not_fail h).elim
        · rcases andThen_error h with hproperties | ⟨-, hbranches⟩
          · obtain ⟨name, c, v, hmem, hv, hrun⟩ := checkProperties_error_mem hproperties
            exact .property hvalue hmem hv hrun
          · obtain ⟨c, hmem, hrun⟩ := checkBranches_error_mem hbranches
            exact .branch hvalue hmem hrun
      · exact (he.not_expect h).elim
  | reference text resolved =>
      cases resolved with
      | none => exact (he.not_fail h).elim
      | some next =>
          simp only [checkKind] at h
          split at h
          · rename_i hentered
            exact .reentry hentered (Except.error.inj h).symm
          · rename_i hfresh
            exact .target hfresh h
  | union types =>
      rw [checkKind] at h
      split at h
      · cases h
      · exact (he.not_fail h).elim

/-! ### The budget suffices -/

/-- A check whose budget exceeds the rank of its node and frame does not use it up. -/
theorem check_ne_tooDeep (hs : s.WellFormed) {budget : Nat} {id : Nat} {f : Frame}
    (hid : id < s.nodes.size) (hbudget : s.rank id f.value f.entered < budget) :
    Validation.check s budget id f ≠ .error .tooDeep := by
  induction budget generalizing id f with
  | zero => exact absurd hbudget (Nat.not_lt_zero _)
  | succ budget ih =>
      intro h
      have hchild : ∀ c : Nat, c ∈ (s.node id).kind.children → c < id := hs.child_lt id
      have hraises := checkKind_raises IsBreak.tooDeep h
      generalize hkind : (s.node id).kind = kind at hraises hchild
      have hdescend : ∀ (c : Nat) (v : Json) (segment : Segment), c ∈ kind.children →
          v.size < f.value.size →
          Validation.check s budget c (f.descend segment v) ≠ .error .tooDeep := by
        intro c v segment hmem hsize
        have hlt := (hchild c hmem).trans hid
        exact ih hlt ((Schema.rank_descend_lt hsize hlt).trans_le (Nat.le_of_lt_succ hbudget))
      cases hraises with
      | element hvalue hv hrun =>
          refine hdescend _ _ _ (List.mem_singleton_self _) ?_ hrun
          rw [hvalue]
          exact Kind.size_lt_of_element (List.mem_of_getElem? hv)
      | position hvalue _ hc hv hrun =>
          refine hdescend _ _ _ (List.mem_of_getElem? hc) ?_ hrun
          rw [hvalue]
          exact Kind.size_lt_of_element (List.mem_of_getElem? hv)
      | property hvalue hmem hv hrun =>
          refine hdescend _ _ _ (List.mem_append_left _ (List.mem_map_of_mem (f := Prod.snd) hmem))
            ?_ hrun
          rw [hvalue]
          exact Kind.size_lt_of_member hv
      | @branch _ _ c hvalue hmem hrun =>
          have hlt := hchild c (List.mem_append_right _ hmem)
          exact ih (hlt.trans hid)
            ((Schema.rank_branch_lt f.value f.entered hlt).trans_le (Nat.le_of_lt_succ hbudget)) hrun
      | target hfresh hrun =>
          have htarget := hs.target_lt id _ _ hkind
          exact ih htarget
            ((Schema.rank_target_lt f.value htarget hfresh).trans_le (Nat.le_of_lt_succ hbudget)) hrun
      | reentry _ herror => cases herror

/-! ### What a check remembers -/

/-- The node checked first at the location of a frame leads over every target entered there to the
current node, by links that stay at the value. -/
structure Sound (s : Schema) (value : Json) (first id : NodeId) (f : Frame) : Prop where
  checks : s.Checks value f.path first id f.value
  start : s.Walks (Link.inPlaceAt f.value) first id
  entered : ∀ target ∈ f.entered, s.Walks (Link.inPlaceAt f.value) first target ∧
    s.Walks (Link.inPlaceAt f.value) target id

variable {value : Json} {first id : NodeId}

theorem Sound.descend {c : NodeId} {segment : Segment} {v : Json}
    (h : s.Checks value (f.path.child segment) c c v) :
    Sound s value c c (f.descend segment v) where
  checks := h
  start := .refl
  entered := fun _ hmem => (List.not_mem_nil hmem).elim

/-- A step that stays at the value goes on from the targets entered so far. -/
theorem Sound.step (h : Sound s value first id f) {c : NodeId}
    (hchecks : s.Checks value f.path first c f.value)
    (hgoes : s.Goes (Link.inPlaceAt f.value) id c) : Sound s value first c f where
  checks := hchecks
  start := h.start.tail hgoes
  entered := fun target hmem => ⟨(h.entered target hmem).1, (h.entered target hmem).2.tail hgoes⟩

theorem Sound.enter {next : NodeId} (h : Sound s value first next f) :
    Sound s value first next (f.enter next) where
  checks := h.checks
  start := h.start
  entered := by
    intro target hmem
    rcases List.mem_append.mp hmem with hmem | hmem
    · exact h.entered target hmem
    · rw [List.mem_singleton.mp hmem]
      exact ⟨h.start, .refl⟩

theorem goes_target {v : Json} {next : NodeId} {text : String}
    (hkind : (s.node id).kind = .reference text (some next)) :
    s.Goes (Link.inPlaceAt v) id next := by
  refine (Schema.Linked.target hkind).goes ?_
  cases v <;> simp [Link.inPlaceAt, Link.inPlace]

/-- A target that is entered twice at a location is on a circle, and its value is an object: the
references alone run in no circle. -/
theorem Sound.runsInCircle (hs : s.Terminates) (h : Sound s value first id f) {next : NodeId}
    {text : String} (hkind : (s.node id).kind = .reference text (some next))
    (hentered : next ∈ f.entered) : s.RunsInCircle value f.path text first next := by
  obtain ⟨hstart, hround⟩ := h.entered next hentered
  have hcircle : s.OnCycle (Link.inPlaceAt f.value) next := .tail' hround (goes_target hkind)
  have hchecks := h.checks
  cases hvalue : f.value with
  | object members =>
      rw [hvalue] at hstart hround hcircle hchecks
      exact ⟨⟨id, members, hchecks, hkind, hround⟩, hstart, hcircle⟩
  | _ =>
      rw [hvalue] at hcircle
      exact (hs.not_onCycle next hcircle).elim

/-- A check fails with a cycle only where a circle was entered. -/
theorem check_error_cycle (hs : s.Terminates) {budget : Nat} {path : InstancePath} {text : String}
    (hsound : Sound s value first id f)
    (h : Validation.check s budget id f = .error (.cycle path text)) :
    ∃ first target, s.RunsInCircle value path text first target := by
  induction budget generalizing first id f with
  | zero => cases h
  | succ budget ih =>
      have hraises := checkKind_raises (IsBreak.cycle path text) h
      have hchecks := hsound.checks
      generalize hkind : (s.node id).kind = kind at hraises
      cases hraises with
      | element hvalue hv hrun =>
          rw [hvalue] at hchecks
          exact ih (.descend (.element hchecks hkind hv)) hrun
      | position hvalue hlength hc hv hrun =>
          rw [hvalue] at hchecks
          exact ih (.descend (.position hchecks hkind hlength hc hv)) hrun
      | property hvalue hmem hv hrun =>
          rw [hvalue] at hchecks
          exact ih (.descend (.property hchecks hkind hmem hv)) hrun
      | @branch _ _ c hvalue hmem hrun =>
          rw [hvalue] at hchecks
          have hgoes : s.Goes (Link.inPlaceAt f.value) id c := by
            rw [hvalue]
            exact (Schema.Linked.branch hkind hmem).goes (List.mem_cons_self ..)
          exact ih (hsound.step (hvalue ▸ hchecks.branch hkind hmem) hgoes) hrun
      | target _ hrun =>
          exact ih (hsound.step (hchecks.target hkind) (goes_target hkind)).enter hrun
      | reentry hentered herror =>
          cases herror
          exact ⟨first, _, hsound.runsInCircle hs hkind hentered⟩

end Validation

namespace Schema

variable {s : Schema}

/-! ### What a valid object excludes -/

/-- A part of a valid value is valid for the nodes that it is checked against. -/
theorem Checks.valid {value v : Json} {path : InstancePath} {first id : NodeId}
    (h : s.Checks value path first id v) (hvalid : s.Valid s.root value) : s.Valid id v := by
  induction h with
  | root => exact hvalid
  | element _ hkind hv ih =>
      obtain ⟨values, hvalues, hall⟩ := ih.admits hkind
      cases hvalues
      exact hall _ (List.mem_of_getElem? hv)
  | @position _ _ _ c _ _ place v _ hkind _ hc hv ih =>
      obtain ⟨values, hvalues, -, hall⟩ := ih.admits hkind
      cases hvalues
      refine hall (c, v) (List.mem_of_getElem? (i := place) ?_)
      rw [List.getElem?_zip_eq_some]
      exact ⟨hc, hv⟩
  | property _ hkind hmem hv ih =>
      obtain ⟨members, hmembers, -, hall, -⟩ := ih.admits hkind
      cases hmembers
      exact hall _ hmem _ hv
  | branch _ hkind hmem ih =>
      obtain ⟨members, hmembers, -, -, hall⟩ := ih.admits hkind
      exact hall _ hmem
  | target _ hkind ih =>
      obtain ⟨target, htarget, -, hrest⟩ := ih.admits hkind
      cases htarget
      exact hrest

/-- From a node that accepts an object no references and branches lead on for ever: each of them
has a lower derivation. -/
theorem ValidWithin.founded {height : Nat} {id : NodeId} {members : Members}
    (h : s.ValidWithin height id (.object members)) : s.Founded Link.inPlace id := by
  induction height generalizing id with
  | zero => exact h.elim
  | succ height ih =>
      refine Acc.intro _ ?_
      rintro c ⟨link, hlink, hlinked⟩
      rw [ValidWithin] at h
      cases hlinked with
      | branch hkind hmem =>
          rw [hkind] at h
          obtain ⟨members', -, -, -, hall⟩ := h
          exact ih (hall c hmem)
      | target hkind =>
          rw [hkind] at h
          obtain ⟨target, htarget, -, hrest⟩ := h
          cases htarget
          exact ih hrest
      | _ => simp [Link.inPlace] at hlink

theorem Valid.founded {id : NodeId} {members : Members} (h : s.Valid id (.object members)) :
    s.Founded Link.inPlace id := by
  obtain ⟨height, hwithin⟩ := h.within
  exact hwithin.founded

/-- A validation fails with a cycle only where it enters a circle of references and branches at an
object; it fails, if a circle is reachable from a node checked against an object; and it always
comes to an end. -/
theorem read_validate_circles {document : Json} (hdistinct : document.DistinctKeys)
    (hread : Schema.read document = .ok s) (value : Json) :
    s.validate value ≠ .error .tooDeep ∧
      (∀ path text, s.validate value = .error (.cycle path text) →
        (∃ members, path.value? value = some (.object members)) ∧
          ∃ first target, s.RunsInCircle value path text first target) ∧
      (∀ path first id target members, s.Checks value path first id (.object members) →
        s.Walks Link.inPlace id target → s.OnCycle Link.inPlace target →
        s.validate value ≠ .ok ()) ∧
      ((∀ id, ¬s.OnCycle Link.inPlace id) →
        ∀ path text, s.validate value ≠ .error (.cycle path text)) := by
  have hs := read_wellFormed hdistinct hread
  have hfinds : ∀ path text, s.validate value = .error (.cycle path text) →
      ∃ first target, s.RunsInCircle value path text first target := by
    intro path text herror
    have hsound : Validation.Sound s value s.root s.root { value } :=
      { checks := .root, start := .refl, entered := fun _ hmem => (List.not_mem_nil hmem).elim }
    exact Validation.check_error_cycle (read_terminates hdistinct hread) hsound herror
  refine ⟨?_, ?_, ?_, ?_⟩
  · exact Validation.check_ne_tooDeep hs hs.root_lt (rank_lt_maxDepth value hs.root_lt)
  · intro path text herror
    obtain ⟨first, target, hcircle⟩ := hfinds path text herror
    obtain ⟨id, members, hchecks, -⟩ := hcircle.object
    exact ⟨⟨members, hchecks.value?⟩, first, target, hcircle⟩
  · intro path first id target members hchecks hwalks hcircle hok
    have hvalid := hchecks.valid ((hs.validate_iff value).mp hok)
    exact hvalid.founded.walks_not_onCycle hwalks hcircle
  · intro hnone path text herror
    obtain ⟨first, target, hcircle⟩ := hfinds path text herror
    exact hnone target hcircle.circle

/-- The elements of a list are described by two definitions, each a branch of the other. -/
def loopDocument : Json :=
  .object [("properties", .object [("parts", .object [("type", .string "array"),
      ("items", .object [("$ref", .string "#/definitions/outer")])])]),
    ("definitions", .object [
      ("inner", .object [("allOf", .array [.object [("$ref", .string "#/definitions/outer")]])]),
      ("outer", .object [("allOf", .array [.object [("$ref", .string "#/definitions/inner")]])])])]

def loopSchema : Schema where
  nodes := #[{ kind := .reference "#/definitions/outer" (some 4) }, { kind := .array 0 },
    { kind := .object { properties := [("parts", 1)] } },
    { kind := .reference "#/definitions/inner" (some 6) }, { kind := .object { allOf := [3] } },
    { kind := .reference "#/definitions/outer" (some 4) }, { kind := .object { allOf := [5] } }]
  root := 2

def loopInstance : Json :=
  .object [("parts", .array [.object []])]

def loopPath : InstancePath :=
  [.key "parts", .index 0]

/-- An object with an object of its own sort, which comes by its base on two ways. -/
def recursiveDocument : Json :=
  .object [("properties", .object [("next", .object [("$ref", .string "#")])]),
    ("allOf", .array [.object [("$ref", .string "#/definitions/left")],
      .object [("$ref", .string "#/definitions/right")]]),
    ("definitions", .object [
      ("left", .object [("allOf", .array [.object [("$ref", .string "#/definitions/base")]])]),
      ("right", .object [("allOf", .array [.object [("$ref", .string "#/definitions/base")]])]),
      ("base", .object [("properties", .object [("id", .object [("type", .string "integer")])])])])]

def recursiveSchema : Schema where
  nodes := #[{ kind := .reference "#" (some 3) },
    { kind := .reference "#/definitions/left" (some 9) },
    { kind := .reference "#/definitions/right" (some 5) },
    { kind := .object { properties := [("next", 0)], allOf := [1, 2] } },
    { kind := .reference "#/definitions/base" (some 7) }, { kind := .object { allOf := [4] } },
    { kind := .primitive .integer }, { kind := .object { properties := [("id", 6)] } },
    { kind := .reference "#/definitions/base" (some 7) }, { kind := .object { allOf := [8] } }]
  root := 3

/-- The object and the one below it have both ways to the base. -/
def recursiveInstance : Json :=
  .object [("next", .object [("id", .number (.integer 2))]), ("id", .number (.integer 1))]

theorem read_loopDocument : read loopDocument = .ok loopSchema := by
  cbv

theorem read_recursiveDocument : read recursiveDocument = .ok recursiveSchema := by
  cbv

theorem checks_loopPath : loopSchema.Checks loopInstance loopPath 0 0 (.object []) := by
  have hroot : (loopSchema.node 2).kind = .object { properties := [("parts", 1)] } := rfl
  have hparts : loopSchema.Checks loopInstance [.key "parts"] 1 1 (.array [.object []]) :=
    .property .root hroot (List.mem_singleton_self _) rfl
  exact .element hparts rfl rfl

theorem onCycle_loopSchema : loopSchema.OnCycle Link.inPlace 4 := by
  have houter : (loopSchema.node 4).kind = .object { allOf := [3] } := rfl
  have hinner : (loopSchema.node 6).kind = .object { allOf := [5] } := rfl
  have hbranch : loopSchema.Goes Link.inPlace 4 3 :=
    (Linked.branch houter (List.mem_singleton_self _)).goes (by decide)
  have hacross : loopSchema.Goes Link.inPlace 3 6 := (Linked.target rfl).goes (by decide)
  have hbranch' : loopSchema.Goes Link.inPlace 6 5 :=
    (Linked.branch hinner (List.mem_singleton_self _)).goes (by decide)
  have hback : loopSchema.Goes Link.inPlace 5 4 := (Linked.target rfl).goes (by decide)
  exact (((Relation.TransGen.single hbranch).tail hacross).tail hbranch').tail hback

theorem not_onCycle_recursiveSchema (id : NodeId) : ¬recursiveSchema.OnCycle Link.inPlace id :=
  not_onCycle_of_ranks (fun id => [5, 3, 3, 4, 1, 2, 0, 0, 1, 2].getD id 0) (by decide) id

theorem read_validate_circles_loop :
    loopSchema.validate loopInstance = .error (.cycle loopPath "#/definitions/outer") ∧
      (∃ first target,
        loopSchema.RunsInCircle loopInstance loopPath "#/definitions/outer" first target) ∧
      loopSchema.validate loopInstance ≠ .ok () ∧
      recursiveSchema.validate recursiveInstance = .ok () ∧
      ∀ value path text, recursiveSchema.validate value ≠ .error (.cycle path text) := by
  have herror : loopSchema.validate loopInstance =
      .error (.cycle loopPath "#/definitions/outer") := by
    cbv
  obtain ⟨-, hfinds, hfails, -⟩ :=
    read_validate_circles (by decide) read_loopDocument loopInstance
  have hok : recursiveSchema.validate recursiveInstance = .ok () := by cbv
  refine ⟨herror, (hfinds _ _ herror).2, ?_, hok, ?_⟩
  · have hwalks : loopSchema.Walks Link.inPlace 0 4 :=
      .single ((Linked.target rfl).goes (by decide))
    exact hfails _ _ _ _ _ checks_loopPath hwalks onCycle_loopSchema
  · intro value path text
    obtain ⟨-, -, -, hnever⟩ :=
      read_validate_circles (by decide) read_recursiveDocument value
    exact hnever not_onCycle_recursiveSchema path text

end Schema

end SchemaBridge
