import SchemaBridge.Proofs.ValidationCycles

/-!
The order of the members of objects. Two values that differ in it alone have the same members by
name, so they have the same types, equal the same literals, and descend to parts that differ in it
alone. Main statement: two such values have the same outcome when they are validated: both pass, or
both fail at the same place for the same reason.
-/

namespace SchemaBridge

/-- Two values are the same but for the order of the members of objects, at any depth. -/
inductive Json.Reordered : Json → Json → Prop
  | null : Reordered .null .null
  | bool (b : Bool) : Reordered (.bool b) (.bool b)
  | number (n : JsonNumber) : Reordered (.number n) (.number n)
  | string (s : String) : Reordered (.string s) (.string s)
  | array {vs ws : List Json} (hlength : vs.length = ws.length)
      (h : ∀ p ∈ vs.zip ws, Reordered p.1 p.2) : Reordered (.array vs) (.array ws)
  | object {xs ys zs : Members} (hperm : xs.Perm ys)
      (hkeys : ys.map Prod.fst = zs.map Prod.fst) (h : ∀ p ∈ ys.zip zs, Reordered p.1.2 p.2.2) :
      Reordered (.object xs) (.object zs)

/-- Two violations are the same but for the order of members in the value that is reported. -/
inductive Violation.Reordered : Violation → Violation → Prop
  | same (violation : Violation) : Reordered violation violation
  | notInEnum {v w : Json} (h : v.Reordered w) (allowed : List Json) :
      Reordered (.notInEnum v allowed) (.notInEnum w allowed)

theorem Violation.Reordered.keyword_eq {x y : Violation} (h : x.Reordered y) :
    x.keyword = y.keyword := by
  cases h <;> rfl

namespace Validation

/-- Two outcomes are the same but for the order of members in a value that is reported. -/
inductive SameOutcome : Except ValidationError Unit → Except ValidationError Unit → Prop
  | ok : SameOutcome (.ok ()) (.ok ())
  | invalid (path : InstancePath) {x y : Violation} (h : x.Reordered y) :
      SameOutcome (.error (.invalid path x)) (.error (.invalid path y))
  | cycle (path : InstancePath) (target : String) :
      SameOutcome (.error (.cycle path target)) (.error (.cycle path target))
  | tooDeep : SameOutcome (.error .tooDeep) (.error .tooDeep)

theorem SameOutcome.bind {x x' y y' : Except ValidationError Unit} (hx : SameOutcome x x')
    (hy : SameOutcome y y') : SameOutcome (do x; y) (do x'; y') := by
  cases hx with
  | ok => exact hy
  | invalid path h => exact .invalid path h
  | cycle path target => exact .cycle path target
  | tooDeep => exact .tooDeep

end Validation

namespace Json

/-! ### Members by name -/

theorem lookup_eq_of_perm {α : Type} {xs ys : List (String × α)} (hperm : xs.Perm ys)
    (hkeys : (xs.map Prod.fst).Nodup) (key : String) : xs.lookup key = ys.lookup key := by
  have hkeys' : (ys.map Prod.fst).Nodup := (hperm.map Prod.fst).nodup_iff.mp hkeys
  apply Option.ext
  intro value
  constructor
  · intro h
    exact lookup_of_mem hkeys' (hperm.mem_iff.mp (mem_of_lookup h))
  · intro h
    exact lookup_of_mem hkeys (hperm.mem_iff.mpr (mem_of_lookup h))

/-- Members that have the same keys in the same order, and related values. -/
theorem forall₂_of_zip {R : Json → Json → Prop} {ys zs : Members}
    (hkeys : ys.map Prod.fst = zs.map Prod.fst) (h : ∀ p ∈ ys.zip zs, R p.1.2 p.2.2) :
    List.Forall₂ (fun y z => y.1 = z.1 ∧ R y.2 z.2) ys zs := by
  induction ys generalizing zs with
  | nil =>
      obtain rfl := List.map_eq_nil_iff.mp hkeys.symm
      exact .nil
  | cons y ys ih =>
      obtain ⟨z, zs, rfl, hkey, hrest⟩ := List.map_eq_cons_iff.mp hkeys.symm
      rw [List.zip_cons_cons, List.forall_mem_cons] at h
      exact .cons ⟨hkey.symm, h.1⟩ (ih hrest.symm h.2)

theorem lookup_rel {R : Json → Json → Prop} {ys zs : Members}
    (h : List.Forall₂ (fun y z => y.1 = z.1 ∧ R y.2 z.2) ys zs) (key : String) :
    Option.Rel R (ys.lookup key) (zs.lookup key) := by
  induction h with
  | nil => exact .none
  | @cons y z ys zs hentry _ ih =>
      rw [List.lookup_cons, List.lookup_cons, hentry.1]
      split
      · exact .some hentry.2
      · exact ih

/-- Objects that differ in the order of members have the same members by name, the values of which
differ in nothing else either. -/
theorem Reordered.lookup {xs zs : Members} (h : Reordered (.object xs) (.object zs))
    (hdistinct : DistinctKeys (.object xs)) (key : String) :
    Option.Rel Reordered (xs.lookup key) (zs.lookup key) := by
  cases h with
  | object hperm hkeys h =>
      rw [lookup_eq_of_perm hperm hdistinct.keys_nodup]
      exact lookup_rel (forall₂_of_zip hkeys h) key

theorem Reordered.elements {vs ws : List Json} (h : Reordered (.array vs) (.array ws)) :
    List.Forall₂ Reordered vs ws := by
  cases h with
  | array hlength h => exact List.forall₂_iff_zip.mpr ⟨hlength, h _⟩

/-! ### Sizes and types -/

theorem sizeMembers_eq_of_perm {xs ys : Members} (h : xs.Perm ys) :
    sizeMembers xs = sizeMembers ys := by
  induction h with
  | nil => rfl
  | cons m _ ih =>
      rw [sizeMembers, sizeMembers, ih]
  | swap m m' rest =>
      simp only [sizeMembers]
      omega
  | trans _ _ ih ih' => exact ih.trans ih'

theorem sizeMembers_eq_of_forall₂ {ys zs : Members}
    (h : List.Forall₂ (fun y z => y.1 = z.1 ∧ y.2.size = z.2.size) ys zs) :
    sizeMembers ys = sizeMembers zs := by
  induction h with
  | nil => rfl
  | cons hentry _ ih => rw [sizeMembers, sizeMembers, hentry.2, ih]

theorem sizeElements_eq_of_forall₂ {vs ws : List Json}
    (h : List.Forall₂ (fun v w => v.size = w.size) vs ws) :
    sizeElements vs = sizeElements ws := by
  induction h with
  | nil => rfl
  | cons hsize _ ih => rw [sizeElements, sizeElements, hsize, ih]

theorem Reordered.size_eq {v w : Json} (h : v.Reordered w) : v.size = w.size := by
  induction h with
  | array hlength _ ih =>
      rw [size, size, sizeElements_eq_of_forall₂ (List.forall₂_iff_zip.mpr ⟨hlength, ih _⟩)]
  | object hperm hkeys _ ih =>
      rw [size, size, sizeMembers_eq_of_perm hperm,
        sizeMembers_eq_of_forall₂ (forall₂_of_zip (R := fun v w => v.size = w.size) hkeys ih)]
  | _ => rfl

theorem Reordered.of_eq {v w : Json} (h : v.Reordered w) : JsonType.of v = JsonType.of w := by
  cases h <;> rfl

theorem Reordered.accepts_eq {v w : Json} (h : v.Reordered w) (type : JsonType) :
    type.accepts v = type.accepts w := by
  cases h <;> cases type with
  | primitive type => cases type <;> rfl
  | _ => rfl

theorem Reordered.length_eq {xs zs : Members} (h : Reordered (.object xs) (.object zs)) :
    xs.length = zs.length := by
  cases h with
  | object hperm hkeys _ =>
      have hlength := congrArg List.length hkeys
      rw [List.length_map, List.length_map] at hlength
      exact hperm.length_eq.trans hlength

/-! ### Literals -/

mutual
/-- A literal equals two values alike that differ in the order of members. -/
theorem same_eq_of_reordered : ∀ (literal : Json) {v w : Json}, v.DistinctKeys → v.Reordered w →
    literal.same v = literal.same w
  | .array literals, v, w, hdistinct, h => by
      have hv := h
      cases h with
      | array =>
          cases hdistinct with
          | array hvs => exact sameElements_eq_of_reordered literals hvs hv.elements
      | _ => rfl
  | .object literals, v, w, hdistinct, h => by
      have hv := h
      cases h with
      | object =>
          rw [same, same, hv.length_eq, sameMembers_eq_of_reordered literals hdistinct hv]
      | _ => rfl
  | .null, v, w, _, h => by cases h <;> rfl
  | .bool _, v, w, _, h => by cases h <;> rfl
  | .number _, v, w, _, h => by cases h <;> rfl
  | .string _, v, w, _, h => by cases h <;> rfl

theorem sameElements_eq_of_reordered : ∀ (literals : List Json) {vs ws : List Json},
    (∀ v ∈ vs, v.DistinctKeys) → List.Forall₂ Reordered vs ws →
    sameElements literals vs = sameElements literals ws
  | [], vs, ws, _, h => by cases h <;> rfl
  | literal :: literals, vs, ws, hdistinct, h => by
      cases h with
      | nil => rfl
      | cons hfirst hrest =>
          rw [List.forall_mem_cons] at hdistinct
          rw [sameElements, sameElements, same_eq_of_reordered literal hdistinct.1 hfirst,
            sameElements_eq_of_reordered literals hdistinct.2 hrest]

theorem sameMembers_eq_of_reordered : ∀ (literals : Members) {xs zs : Members},
    DistinctKeys (.object xs) → Reordered (.object xs) (.object zs) →
    sameMembers literals xs = sameMembers literals zs
  | [], _, _, _, _ => rfl
  | (key, literal) :: literals, xs, zs, hdistinct, h => by
      rw [sameMembers, sameMembers, sameMembers_eq_of_reordered literals hdistinct h]
      congr 1
      have hlookup := h.lookup hdistinct key
      generalize hz : zs.lookup key = found at hlookup
      cases hx : xs.lookup key with
      | none =>
          rw [hx] at hlookup
          cases hlookup
          rfl
      | some v =>
          rw [hx] at hlookup
          cases hlookup with
          | some hv => exact same_eq_of_reordered literal (hdistinct.lookup hx) hv
end

end Json

namespace Validation

/-- Two frames are at the same location of values that differ in the order of members. -/
structure SameLocation (f g : Frame) : Prop where
  value : f.value.Reordered g.value
  distinct : f.value.DistinctKeys
  path : f.path = g.path
  entered : f.entered = g.entered

variable {f g : Frame}

theorem SameLocation.descend (h : SameLocation f g) (segment : Segment) {v w : Json}
    (hv : v.Reordered w) (hdistinct : v.DistinctKeys) :
    SameLocation (f.descend segment v) (g.descend segment w) where
  value := hv
  distinct := hdistinct
  path := congrArg (InstancePath.child · segment) h.path
  entered := rfl

theorem SameLocation.enter (h : SameLocation f g) (target : NodeId) :
    SameLocation (f.enter target) (g.enter target) where
  value := h.value
  distinct := h.distinct
  path := h.path
  entered := congrArg (· ++ [target]) h.entered

theorem SameLocation.fail (h : SameLocation f g) {x y : Violation} (hxy : x.Reordered y) :
    SameOutcome (f.fail x) (g.fail y) := by
  rw [Frame.fail, Frame.fail, ← h.path]
  exact .invalid f.path hxy

theorem SameLocation.expect (h : SameLocation f g) (type : JsonType) :
    SameOutcome (f.expect type) (g.expect type) := by
  rw [Frame.expect, Frame.expect, ← h.value.accepts_eq, ← h.value.of_eq]
  split
  · exact .ok
  · exact h.fail (.same _)

theorem isNone_lookup_eq {xs zs : Members} (hdistinct : (Json.object xs).DistinctKeys)
    (hxs : (Json.object xs).Reordered (.object zs)) (name : String) :
    (xs.lookup name).isNone = (zs.lookup name).isNone := by
  have hlookup := hxs.lookup hdistinct name
  generalize xs.lookup name = found at hlookup
  generalize zs.lookup name = found' at hlookup
  cases hlookup <;> rfl

section

variable {check : Checker}
  (hcheck : ∀ id f g, SameLocation f g → SameOutcome (check id f) (check id g))

include hcheck

theorem checkElements_sameOutcome (h : SameLocation f g) {items : NodeId} {index : Nat}
    {vs ws : List Json} (hdistinct : ∀ v ∈ vs, v.DistinctKeys)
    (hvs : List.Forall₂ Json.Reordered vs ws) :
    SameOutcome (checkElements check f items index vs) (checkElements check g items index ws) := by
  induction hvs generalizing index with
  | nil => exact .ok
  | cons hfirst _ ih =>
      obtain ⟨hv, hvs⟩ := List.forall_mem_cons.mp hdistinct
      exact (hcheck items _ _ (h.descend (.index index) hfirst hv)).bind (ih hvs)

theorem checkTuple_sameOutcome (h : SameLocation f g) {index : Nat} {ids : List NodeId}
    {vs ws : List Json} (hdistinct : ∀ v ∈ vs, v.DistinctKeys)
    (hvs : List.Forall₂ Json.Reordered vs ws) :
    SameOutcome (checkTuple check f index ids vs) (checkTuple check g index ids ws) := by
  induction hvs generalizing index ids with
  | nil => cases ids <;> exact .ok
  | cons hfirst _ ih =>
      cases ids with
      | nil => exact .ok
      | cons id ids =>
          obtain ⟨hv, hvs⟩ := List.forall_mem_cons.mp hdistinct
          exact (hcheck id _ _ (h.descend (.index index) hfirst hv)).bind (ih hvs)

theorem checkProperties_sameOutcome (h : SameLocation f g) {xs zs : Members}
    (hdistinct : (Json.object xs).DistinctKeys)
    (hxs : (Json.object xs).Reordered (.object zs)) {properties : List (String × NodeId)} :
    SameOutcome (checkProperties check f xs properties)
      (checkProperties check g zs properties) := by
  induction properties with
  | nil => exact .ok
  | cons p rest ih =>
      obtain ⟨name, id⟩ := p
      rw [checkProperties, checkProperties]
      have hlookup := hxs.lookup hdistinct name
      generalize hx : xs.lookup name = found at hlookup
      generalize zs.lookup name = found' at hlookup
      cases hlookup with
      | none => exact ih
      | some hv =>
          exact (hcheck id _ _ (h.descend (.key name) hv (hdistinct.lookup hx))).bind ih

theorem checkBranches_sameOutcome (h : SameLocation f g) {ids : List NodeId} :
    SameOutcome (checkBranches check f ids) (checkBranches check g ids) := by
  induction ids with
  | nil => exact .ok
  | cons id rest ih => exact (hcheck id f g h).bind ih

/-- One check has the same outcome if the checks that it leads to have. -/
theorem checkKind_sameOutcome (h : SameLocation f g) (kind : Kind) :
    SameOutcome (checkKind check kind f) (checkKind check kind g) := by
  have hexpect := h.expect
  obtain ⟨v, path, entered⟩ := f
  obtain ⟨w, path', entered'⟩ := g
  have hvalue : v.Reordered w := h.value
  have hdistinct : v.DistinctKeys := h.distinct
  have hparts := hvalue
  cases kind with
  | untyped => exact .ok
  | primitive type => exact hexpect (.primitive type)
  | enumeration literals =>
      rw [checkKind, checkKind]
      have hsame : literals.any (·.same v) = literals.any (·.same w) := by
        congr 1
        funext literal
        exact Json.same_eq_of_reordered literal hdistinct hvalue
      simp only [hsame]
      split
      · exact .ok
      · exact h.fail (.notInEnum hvalue literals)
  | array items =>
      cases hvalue with
      | array =>
          cases hdistinct with
          | array hvs => exact checkElements_sameOutcome hcheck h hvs hparts.elements
      | _ => exact hexpect .array
  | tuple ids =>
      cases hvalue with
      | array hlength =>
          cases hdistinct with
          | array hvs =>
              simp only [checkKind, hlength]
              split
              · exact checkTuple_sameOutcome hcheck h hvs hparts.elements
              · exact h.fail (.same _)
      | _ => exact hexpect .array
  | object shape =>
      cases hvalue with
      | object =>
          rw [checkKind, checkKind]
          simp only [isNone_lookup_eq hdistinct hparts]
          split
          · exact h.fail (.same _)
          · exact (checkProperties_sameOutcome hcheck h hdistinct hparts).bind
              (checkBranches_sameOutcome hcheck h)
      | _ => exact hexpect .object
  | reference text resolved =>
      cases resolved with
      | none => exact h.fail (.same _)
      | some target =>
          obtain rfl : entered = entered' := h.entered
          obtain rfl : path = path' := h.path
          simp only [checkKind]
          split
          · exact .cycle _ _
          · exact hcheck target _ _ (h.enter target)
  | union types =>
      rw [checkKind, checkKind]
      simp only [hvalue.accepts_eq, hvalue.of_eq]
      split
      · exact .ok
      · exact h.fail (.same _)

end

/-- A check has the same outcome at the same location of values that differ in the order of
members. -/
theorem check_sameOutcome (s : Schema) (budget : Nat) :
    ∀ id f g, SameLocation f g → SameOutcome (check s budget id f) (check s budget id g) := by
  induction budget with
  | zero => exact fun _ _ _ _ => .tooDeep
  | succ budget ih => exact fun id f g h => checkKind_sameOutcome ih h (s.node id).kind

end Validation

namespace Schema

open Validation

/-- Validation does not depend on the order of the members of objects: both values pass, or both
violate the same keyword at the same place, in the same way but for the order of members in the
value that is reported, or both run into the same circle at the same place. -/
theorem validate_reordered {s : Schema} (hs : s.Made) {v w : Json} (hdistinct : v.DistinctKeys)
    (h : v.Reordered w) :
    s.validate v = .ok () ∧ s.validate w = .ok () ∨
      (∃ path x y, s.validate v = .error (.invalid path x) ∧
        s.validate w = .error (.invalid path y) ∧ x.keyword = y.keyword ∧ x.Reordered y) ∨
      ∃ path target, s.validate v = .error (.cycle path target) ∧
        s.validate w = .error (.cycle path target) := by
  have hlocation : SameLocation { value := v } { value := w } := ⟨h, hdistinct, rfl, rfl⟩
  have hdepth : maxDepth s v = maxDepth s w := by rw [maxDepth, maxDepth, h.size_eq]
  have houtcome := check_sameOutcome s (maxDepth s v) s.root _ _ hlocation
  have hv : check s (maxDepth s v) s.root { value := v } = s.validate v := rfl
  have hw : check s (maxDepth s v) s.root { value := w } = s.validate w := by rw [hdepth]; rfl
  have hends : s.validate v ≠ .error .tooDeep :=
    check_ne_tooDeep hs.wellFormed hs.wellFormed.root_lt (rank_lt_maxDepth v hs.wellFormed.root_lt)
  rw [hv, hw] at houtcome
  generalize s.validate v = outcome at houtcome hends
  generalize s.validate w = outcome' at houtcome
  cases houtcome with
  | ok => exact .inl ⟨rfl, rfl⟩
  | invalid path hxy => exact .inr (.inl ⟨path, _, _, rfl, rfl, hxy.keyword_eq, hxy⟩)
  | cycle path target => exact .inr (.inr ⟨path, target, rfl, rfl⟩)
  | tooDeep => exact (hends rfl).elim

/-- A list of points, each of which has to be a certain one. -/
def routeDocument : Json :=
  .object [("properties", .object [("route", .object [("type", .string "array"),
    ("items", .object [("enum", .array [.object [("x", .number (.integer 1)),
      ("y", .number (.integer 2))]])])])])]

def routeSchema : Schema where
  nodes := #[{ kind := .enumeration [.object [("x", .number (.integer 1)),
      ("y", .number (.integer 2))]] },
    { kind := .array 0 }, { kind := .object { properties := [("route", 1)] } }]
  root := 2

/-- A point with its coordinates in order, and the same one with them the other way round. -/
def pointAcross (y : Nat) : Json :=
  .object [("x", .number (.integer 1)), ("y", .number (.integer y))]

def pointDown (y : Nat) : Json :=
  .object [("y", .number (.integer y)), ("x", .number (.integer 1))]

def routeInstance : Json :=
  .object [("name", .string "north"), ("route", .array [pointAcross 2, pointAcross 3])]

def routeInstanceDown : Json :=
  .object [("route", .array [pointDown 2, pointDown 3]), ("name", .string "north")]

def routePath : InstancePath :=
  [.key "route", .index 1]

theorem read_routeDocument : read routeDocument = .ok routeSchema := by
  cbv

theorem pointAcross_reordered (y : Nat) : (pointAcross y).Reordered (pointDown y) :=
  .object (.swap _ _ []) rfl (by simpa using ⟨.number _, .number _⟩)

theorem routeInstance_reordered : routeInstance.Reordered routeInstanceDown := by
  have hpoints : (Json.array [pointAcross 2, pointAcross 3]).Reordered
      (.array [pointDown 2, pointDown 3]) :=
    .array rfl (by simpa using ⟨pointAcross_reordered 2, pointAcross_reordered 3⟩)
  exact .object (.swap _ _ []) rfl (by simpa using ⟨hpoints, .string "north"⟩)

theorem validate_reordered_route :
    routeSchema.Made ∧ routeInstance.DistinctKeys ∧ routeInstance.Reordered routeInstanceDown ∧
      ∃ x y, routeSchema.validate routeInstance = .error (.invalid routePath x) ∧
        routeSchema.validate routeInstanceDown = .error (.invalid routePath y) ∧
        x.keyword = "enum" ∧ x.keyword = y.keyword ∧ x.Reordered y := by
  have hmade : routeSchema.Made := .read (by decide) read_routeDocument
  have hdistinct : routeInstance.DistinctKeys := by decide
  have herror : routeSchema.validate routeInstance =
      .error (.invalid routePath (.notInEnum (pointAcross 3) [pointAcross 2])) := by
    cbv
  refine ⟨hmade, hdistinct, routeInstance_reordered, ?_⟩
  rcases validate_reordered hmade hdistinct routeInstance_reordered with
    ⟨hok, -⟩ | ⟨path, x, y, hx, hy, hkeyword, hxy⟩ | ⟨path, target, hcycle, -⟩
  · rw [herror] at hok
    cases hok
  · rw [herror] at hx
    cases hx
    exact ⟨_, y, herror, hy, rfl, hkeyword, hxy⟩
  · rw [herror] at hcycle
    cases hcycle

end Schema

end SchemaBridge
