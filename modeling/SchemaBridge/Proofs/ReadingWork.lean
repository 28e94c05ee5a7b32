import SchemaBridge.Proofs.DocumentReferences
import SchemaBridge.Proofs.ErrorLocations

/-!
How much work the waiting references are. They are taken from the stack in rounds, until none waits
or a round fails. A round may read a target on demand, which puts more references on the stack, but
then the text of the reference leads to a known location from there on. Main statement: the rounds
come to an end, and no text of a reference in the document has its target read twice.
-/

namespace SchemaBridge

open Steps

namespace Reader

/-- One round: the latest reference leaves the stack and gets its target, or the round fails. If the
target is read on demand, the text of the reference is told. -/
inductive Round (document : Json) (d : Draft) : Option String → Except SchemaError Draft → Prop
  | skip {id : NodeId} {rest : List NodeId} (hpending : d.pending = id :: rest)
      (hkind : (d.nodes.node id).kind.isReference = false) :
      Round document d none (.ok { d with pending := rest })
  | known {id target : NodeId} {rest : List NodeId} {reference pointer : String}
      {resolved : Option NodeId} (hpending : d.pending = id :: rest)
      (hkind : (d.nodes.node id).kind = .reference reference resolved)
      (hpointer : Pointer.ofReference? reference = some pointer)
      (hknown : d.locations.lookup pointer = some target) :
      Round document d none (.ok (({ d with pending := rest } : Draft).bind id target))
  | demand {d₁ : Draft} {id target : NodeId} {rest : List NodeId} {reference pointer : String}
      {resolved : Option NodeId} {value : Json} (hpending : d.pending = id :: rest)
      (hkind : (d.nodes.node id).kind = .reference reference resolved)
      (hpointer : Pointer.ofReference? reference = some pointer)
      (hunknown : d.locations.lookup pointer = none) (hvalue : document.at? pointer = some value)
      (hread : (schema document pointer value).run { d with pending := rest } = .ok (target, d₁)) :
      Round document d (some reference) (.ok (d₁.bind id target))
  | invalid {id : NodeId} {rest : List NodeId} {reference : String} {resolved : Option NodeId}
      (hpending : d.pending = id :: rest)
      (hkind : (d.nodes.node id).kind = .reference reference resolved)
      (hpointer : Pointer.ofReference? reference = none) :
      Round document d none (.error (.reference (.invalidFormat reference)))
  | missing {id : NodeId} {rest : List NodeId} {reference pointer : String}
      {resolved : Option NodeId} (hpending : d.pending = id :: rest)
      (hkind : (d.nodes.node id).kind = .reference reference resolved)
      (hpointer : Pointer.ofReference? reference = some pointer)
      (hunknown : d.locations.lookup pointer = none) (hvalue : document.at? pointer = none) :
      Round document d none (.error (.reference (.targetNotFound reference)))
  | fails {id : NodeId} {rest : List NodeId} {reference pointer : String}
      {resolved : Option NodeId} {value : Json} {e : SchemaError}
      (hpending : d.pending = id :: rest)
      (hkind : (d.nodes.node id).kind = .reference reference resolved)
      (hpointer : Pointer.ofReference? reference = some pointer)
      (hunknown : d.locations.lookup pointer = none) (hvalue : document.at? pointer = some value)
      (hread : (schema document pointer value).run { d with pending := rest } = .error e) :
      Round document d (some reference) (.error e)

/-- The rounds from a draft to an outcome: the texts of the references whose targets are read on
demand, in this order, and the number of rounds. -/
inductive Rounds (document : Json) : Draft → List String → Nat → Except SchemaError Draft → Prop
  | done {d : Draft} (hpending : d.pending = []) : Rounds document d [] 0 (.ok d)
  | next {d d₁ : Draft} {demand : Option String} {demands : List String} {count : Nat}
      {outcome : Except SchemaError Draft} (hround : Round document d demand (.ok d₁))
      (hrest : Rounds document d₁ demands count outcome) :
      Rounds document d (demand.toList ++ demands) (count + 1) outcome
  | fails {d : Draft} {demand : Option String} {e : SchemaError}
      (hround : Round document d demand (.error e)) :
      Rounds document d demand.toList 1 (.error e)

/-! ### One round -/

section

variable {document : Json} {d d₁ : Draft} {demand : Option String}
  {outcome : Except SchemaError Draft}

/-- What resolving a reference comes to. -/
theorem target_run (reference : String) (d : Draft) : (target document reference).run d =
    match Pointer.ofReference? reference with
    | none => .error (.reference (.invalidFormat reference))
    | some pointer =>
      match d.locations.lookup pointer with
      | some id => .ok (id, d)
      | none =>
        match document.at? pointer with
        | some value => (schema document pointer value).run d
        | none => .error (.reference (.targetNotFound reference)) := by
  rw [target, Keyword.referencePointer]
  cases Pointer.ofReference? reference with
  | none => rfl
  | some pointer =>
      rw [lift_ok_bind, run_get_bind]
      dsimp only
      cases d.locations.lookup pointer with
      | some id => rfl
      | none => cases document.at? pointer <;> rfl

/-- A round is the first one of the reader, whatever the budget. -/
theorem Round.resolve_eq (h : Round document d demand outcome) (budget : Nat) :
    (resolve document (budget + 1)).run d =
      outcome.bind fun d₁ => (resolve document budget).run d₁ := by
  cases h with
  | skip hpending hkind => exact resolve_skip hpending hkind
  | known hpending hkind hpointer hknown =>
      rw [resolve_step hpending hkind, StateT.run_bind, target_run]
      simp only [hpointer, hknown]
      rfl
  | demand hpending hkind hpointer hunknown hvalue hread =>
      rw [resolve_step hpending hkind, StateT.run_bind, target_run]
      simp only [hpointer, hunknown, hvalue, hread]
      rfl
  | invalid hpending hkind hpointer =>
      rw [resolve_step hpending hkind, StateT.run_bind, target_run]
      simp only [hpointer]
      rfl
  | missing hpending hkind hpointer hunknown hvalue =>
      rw [resolve_step hpending hkind, StateT.run_bind, target_run]
      simp only [hpointer, hunknown, hvalue]
      rfl
  | fails hpending hkind hpointer hunknown hvalue hread =>
      rw [resolve_step hpending hkind, StateT.run_bind, target_run]
      simp only [hpointer, hunknown, hvalue, hread]
      rfl

/-- While a reference waits, there is another round. -/
theorem exists_round (h : d.pending ≠ []) : ∃ demand outcome, Round document d demand outcome := by
  obtain ⟨id, rest, hpending⟩ := List.exists_cons_of_ne_nil h
  cases hkind : (d.nodes.node id).kind with
  | reference reference resolved =>
      cases hpointer : Pointer.ofReference? reference with
      | none => exact ⟨_, _, .invalid hpending hkind hpointer⟩
      | some pointer =>
          cases hlookup : d.locations.lookup pointer with
          | some target => exact ⟨_, _, .known hpending hkind hpointer hlookup⟩
          | none =>
              cases hvalue : document.at? pointer with
              | none => exact ⟨_, _, .missing hpending hkind hpointer hlookup hvalue⟩
              | some value =>
                  cases hread : (schema document pointer value).run { d with pending := rest } with
                  | error e => exact ⟨_, _, .fails hpending hkind hpointer hlookup hvalue hread⟩
                  | ok r => exact ⟨_, _, .demand hpending hkind hpointer hlookup hvalue hread⟩
  | _ => exact ⟨_, _, .skip hpending (by rw [hkind]; rfl)⟩

theorem Round.pending_ne_nil (h : Round document d demand outcome) : d.pending ≠ [] := by
  cases h <;> simp_all

/-- A round that succeeds drops the latest of the waiting references, or finds its target. -/
theorem Round.ok_cases (h : Round document d demand (.ok d₁)) :
    (∃ id rest, d.pending = id :: rest ∧ d₁ = { d with pending := rest }) ∨
      ∃ id rest reference resolved found d', d.pending = id :: rest ∧
        (d.nodes.node id).kind = .reference reference resolved ∧
        (target document reference).run { d with pending := rest } = .ok (found, d') ∧
        d₁ = d'.bind id found := by
  cases h with
  | skip hpending => exact .inl ⟨_, _, hpending, rfl⟩
  | known hpending hkind hpointer hknown =>
      refine .inr ⟨_, _, _, _, _, _, hpending, hkind, ?_, rfl⟩
      rw [target_run]
      simp only [hpointer, hknown]
  | demand hpending hkind hpointer hunknown hvalue hread =>
      refine .inr ⟨_, _, _, _, _, _, hpending, hkind, ?_, rfl⟩
      rw [target_run]
      simp only [hpointer, hunknown, hvalue, hread]

/-- After a round the draft is ready for the next one, and fewer references may still wait. -/
theorem Round.ready (hdistinct : document.DistinctKeys) (hd : d.Ready document)
    (h : Round document d demand (.ok d₁)) :
    d₁.Ready document ∧ d₁.mayWait document < d.mayWait document := by
  obtain ⟨_, _, hpending, rfl⟩ | ⟨_, _, _, _, _, _, hpending, hkind, hfound, rfl⟩ := h.ok_cases
  · exact hd.skip hpending
  · exact hd.bind hdistinct hpending hkind hfound

/-- The locations that are known stay known. -/
theorem Round.known_subset (h : Round document d demand (.ok d₁)) :
    d.locations.map Prod.fst ⊆ d₁.locations.map Prod.fst := by
  cases h with
  | skip => exact List.Subset.refl _
  | known => exact List.Subset.refl _
  | @demand d' _ _ _ _ _ _ _ _ _ _ _ _ hread =>
      obtain ⟨fresh, hfresh, -⟩ := (schema_reads hread).grows.locations
      show d.locations.map Prod.fst ⊆ d'.locations.map Prod.fst
      rw [hfresh, List.map_append]
      exact List.subset_append_right _ _

/-- A reference whose target is read on demand leads to a location that was not known before. -/
theorem Round.demand_unknown {reference : String} (h : Round document d (some reference) outcome) :
    ∃ pointer, Pointer.ofReference? reference = some pointer ∧
      pointer ∉ d.locations.map Prod.fst := by
  have hnot : ∀ {pointer}, d.locations.lookup pointer = none →
      pointer ∉ d.locations.map Prod.fst := fun hnone => by
    rwa [← lookup_ne_none_iff, not_not]
  cases h with
  | demand _ _ hpointer hunknown => exact ⟨_, hpointer, hnot hunknown⟩
  | fails _ _ hpointer hunknown => exact ⟨_, hpointer, hnot hunknown⟩

/-- Its target is known after the round. -/
theorem Round.demand_known (hd : d.Ready document) {reference pointer : String}
    (h : Round document d (some reference) (.ok d₁))
    (hpointer : Pointer.ofReference? reference = some pointer) :
    pointer ∈ d₁.locations.map Prod.fst := by
  cases h with
  | @demand d' id target rest _ _ _ _ _ _ hpointer' _ _ hread =>
      rw [hpointer] at hpointer'
      cases hpointer'
      have hplaced := (schema_reads hread).pointer?_target (hd.sound.setPending rest).indexed
      exact List.mem_map_of_mem (f := Prod.fst) (Draft.mem_of_pointer? hplaced)

end

end Reader

/-- The references in a part of a document are references in the document. -/
theorem Json.CitesOnly.at? {good : String → Prop} {document value : Json} {pointer : String}
    (h : CitesOnly good document) (hvalue : document.at? pointer = some value) :
    CitesOnly good value := by
  obtain ⟨tokens, -, hfollow⟩ := Option.bind_eq_some_iff.mp hvalue
  exact h.follow? hfollow

/-- The text of a reference among the nodes stands in the document. -/
theorem Draft.Sound.mem_references {document : Json} {d : Draft} (hd : d.Sound document)
    {id : NodeId} {reference : String} {resolved : Option NodeId}
    (hkind : (d.nodes.node id).kind = .reference reference resolved) :
    reference ∈ document.references := by
  obtain ⟨pointer, members, -, hvalue, href⟩ := hd.reference_at hkind
  have hself : document.CitesOnly (· ∈ document.references) := fun _ hmem => hmem
  exact (hself.at? hvalue).reference href

namespace Reader

variable {document : Json} {d : Draft} {demands : List String} {count : Nat}
  {outcome : Except SchemaError Draft}

theorem Round.demand_mem {demand : Option String} (hd : d.Ready document)
    (h : Round document d demand outcome) :
    ∀ reference ∈ demand, reference ∈ document.references := by
  rintro reference ⟨⟩
  cases h with
  | demand _ hkind => exact hd.sound.mem_references hkind
  | fails _ hkind => exact hd.sound.mem_references hkind

/-! ### All rounds -/

/-- The rounds end, with a draft or with an error. -/
theorem exists_rounds (hdistinct : document.DistinctKeys) (hd : d.Ready document) :
    ∃ demands count outcome, Rounds document d demands count outcome := by
  induction hbound : d.mayWait document using Nat.strong_induction_on generalizing d with
  | _ bound ih =>
      by_cases hpending : d.pending = []
      · exact ⟨_, _, _, .done hpending⟩
      obtain ⟨demand, outcome, hround⟩ : ∃ demand outcome, Round document d demand outcome :=
        exists_round hpending
      cases outcome with
      | error e => exact ⟨_, _, _, .fails hround⟩
      | ok d₁ =>
          obtain ⟨hready, hless⟩ := hround.ready hdistinct hd
          obtain ⟨demands, count, outcome, hrest⟩ := ih _ (hbound ▸ hless) hready rfl
          exact ⟨_, _, _, .next hround hrest⟩

/-- There are no more rounds than references that may wait. -/
theorem Rounds.count_le (hdistinct : document.DistinctKeys) (hd : d.Ready document)
    (h : Rounds document d demands count outcome) : count ≤ d.mayWait document := by
  induction h with
  | done => exact Nat.zero_le _
  | next hround _ ih =>
      obtain ⟨hready, hless⟩ := hround.ready hdistinct hd
      exact Nat.lt_of_le_of_lt (ih hready) hless
  | fails hround =>
      exact Nat.le_add_right_of_le (List.length_pos_iff.mpr hround.pending_ne_nil)

/-- Every budget beyond the number of the rounds has their outcome. -/
theorem Rounds.resolve_eq (h : Rounds document d demands count outcome) {budget : Nat}
    (hbudget : count < budget) :
    (resolve document budget).run d = outcome.map fun d' => ((), d') := by
  obtain ⟨budget, rfl⟩ : ∃ n, budget = n + 1 := ⟨budget - 1, by omega⟩
  induction h generalizing budget with
  | done hpending =>
      rw [resolve, run_get_bind]
      simp only [hpending]
      rfl
  | next hround _ ih =>
      rw [hround.resolve_eq]
      obtain ⟨budget, rfl⟩ : ∃ n, budget = n + 1 := ⟨budget - 1, by omega⟩
      exact ih budget (by omega)
  | fails hround => rw [hround.resolve_eq]; rfl

/-- What is read on demand was not known when the rounds began. -/
theorem Rounds.demands_unknown (h : Rounds document d demands count outcome) :
    ∀ reference ∈ demands, ∃ pointer, Pointer.ofReference? reference = some pointer ∧
      pointer ∉ d.locations.map Prod.fst := by
  induction h with
  | done => simp
  | next hround _ ih =>
      refine List.forall_mem_append.mpr ⟨fun reference hmem => ?_, fun reference hmem => ?_⟩
      · rw [Option.mem_toList] at hmem
        cases hmem
        exact hround.demand_unknown
      · obtain ⟨pointer, hpointer, hunknown⟩ := ih reference hmem
        exact ⟨pointer, hpointer, fun hknown => hunknown (hround.known_subset hknown)⟩
  | fails hround =>
      intro reference hmem
      rw [Option.mem_toList] at hmem
      cases hmem
      exact hround.demand_unknown

/-- No text of a reference has its target read on demand twice. -/
theorem Rounds.demands_nodup (hdistinct : document.DistinctKeys) (hd : d.Ready document)
    (h : Rounds document d demands count outcome) : demands.Nodup := by
  induction h with
  | done => exact List.nodup_nil
  | @next d d₁ demand demands _ _ hround hrest ih =>
      obtain ⟨hready, -⟩ := hround.ready hdistinct hd
      cases demand with
      | none => exact ih hready
      | some reference =>
          -- the target is known from here on, but what is read on demand later is not
          refine List.nodup_cons.mpr ⟨fun hmem => ?_, ih hready⟩
          obtain ⟨pointer, hpointer, hunknown⟩ := hrest.demands_unknown reference hmem
          exact hunknown (hround.demand_known hd hpointer)
  | @fails d demand =>
      cases demand with
      | none => exact List.nodup_nil
      | some reference => exact List.nodup_singleton reference

theorem Rounds.demands_subset (hdistinct : document.DistinctKeys) (hd : d.Ready document)
    (h : Rounds document d demands count outcome) : demands ⊆ document.references := by
  induction h with
  | done => exact List.nil_subset _
  | next hround _ ih =>
      obtain ⟨hready, -⟩ := hround.ready hdistinct hd
      refine List.append_subset.mpr ⟨fun reference hmem => ?_, ih hready⟩
      exact hround.demand_mem hd reference (Option.mem_toList.mp hmem)
  | fails hround =>
      exact fun reference hmem => hround.demand_mem hd reference (Option.mem_toList.mp hmem)

/-- Once the root is read, the waiting references are resolved in finitely many rounds, whatever
they refer to. No text of a reference in the document has its target read on demand twice, the
rounds are within the budget of the reader, and with every budget beyond their number the reader
comes to their outcome, which tells of no budget that was used up. -/
theorem resolve_rounds {root : NodeId} (hdistinct : document.DistinctKeys)
    (hroot : (schema document "" document).run {} = .ok (root, d)) :
    (∃ demands count outcome, Rounds document d demands count outcome) ∧
    ∀ demands count outcome, Rounds document d demands count outcome →
      demands.Nodup ∧ demands ⊆ document.references ∧ count < maxReferences document ∧
      outcome ≠ .error .tooDeep ∧
      ∀ budget, count < budget →
        (resolve document budget).run d = outcome.map fun d' => ((), d') := by
  obtain ⟨hready, hbudget⟩ := Draft.ready_of_root hdistinct hroot
  refine ⟨exists_rounds hdistinct hready, fun demands count outcome h => ?_⟩
  have hcount := Nat.lt_of_le_of_lt (h.count_le hdistinct hready) hbudget
  refine ⟨h.demands_nodup hdistinct hready, h.demands_subset hdistinct hready, hcount, ?_,
    fun budget => h.resolve_eq⟩
  rintro rfl
  -- the budget of the reader exceeds the rounds, so their error is one of the reader
  have herror := h.resolve_eq hcount
  exact (resolve_error hdistinct hready hbudget herror).ne_tooDeep rfl

/-- A pet and its owner, whose definitions refer to themselves, to each other and to the root. -/
def kinDocument : Json :=
  .object [("properties", .object [("owner", .object [("$ref", .string "#/definitions/person")]),
      ("pet", .object [("$ref", .string "#/definitions/pet")])]),
    ("definitions", .object [
      ("person", .object [("properties", .object [
        ("pet", .object [("$ref", .string "#/definitions/pet")]),
        ("friend", .object [("$ref", .string "#/definitions/person")]),
        ("home", .object [("$ref", .string "#")])])]),
      ("pet", .object [("properties", .object [
        ("owner", .object [("$ref", .string "#/definitions/person")])])])])]

/-- What the root of the document of a pet and its owner is read to. -/
def kinDraft : Draft where
  nodes := #[{ kind := .reference "#/definitions/person" none },
    { kind := .reference "#/definitions/pet" none },
    { kind := .object { properties := [("owner", 0), ("pet", 1)] } }]
  locations := [("", 2), ("/properties/pet", 1), ("/properties/owner", 0)]
  pending := [1, 0]

theorem schema_kinDocument :
    (schema kinDocument "" kinDocument).run {} = .ok (2, kinDraft) := by
  cbv

theorem resolve_rounds_kin : kinDocument.DistinctKeys ∧
    (schema kinDocument "" kinDocument).run {} = .ok (2, kinDraft) ∧
    ∃ demands count outcome, Rounds kinDocument kinDraft demands count outcome ∧ demands.Nodup ∧
      demands ⊆ kinDocument.references ∧ count < maxReferences kinDocument := by
  have hdistinct : kinDocument.DistinctKeys := by decide
  obtain ⟨⟨demands, count, outcome, hrounds⟩, hall⟩ := resolve_rounds hdistinct schema_kinDocument
  obtain ⟨hnodup, hsubset, hcount, -⟩ := hall _ _ _ hrounds
  exact ⟨hdistinct, schema_kinDocument, demands, count, outcome, hrounds, hnodup, hsubset, hcount⟩

end Reader

end SchemaBridge
