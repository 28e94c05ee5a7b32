import SchemaBridge.Proofs.ReadingSuccess
import SchemaBridge.Proofs.ResolvedReferences

/-!
Which documents are schemas. A reading fails at a location that spells no schema or over a chain of
references without an end, and at nothing else. Main statement: a document is accepted exactly if
every location that is reached spells a schema and no chain of references goes on without end,
whatever the order in which the locations are read.
-/

namespace SchemaBridge

/-! ### Chains of references -/

section

variable {document : Json} {s : Schema} {place : NodeId → Option String}

/-- A reference leads to the node at the location to which its own location refers. -/
theorem FaithfulBy.linksTo (h : FaithfulBy document s place) {id : Nat} {pointer reference : String}
    {resolved : Option NodeId} (hid : id < s.nodes.size) (hplace : place id = some pointer)
    (hkind : (s.node id).kind = .reference reference resolved) :
    ∃ (next : Nat) (target : String), resolved = some next ∧ next < s.nodes.size ∧
      place next = some target ∧ LinksTo document pointer target := by
  obtain ⟨next, target, hresolved, hnext, htarget, hplace'⟩ := h.reference id _ _ hkind
  refine ⟨next, target, hresolved, hnext, hplace', ?_⟩
  obtain ⟨value, hvalue, hdescribes⟩ := h.located id hid pointer hplace
  generalize s.node id = node at hkind hdescribes
  cases hdescribes with
  | any => cases hkind
  | @object members _ _ _ hspells =>
      rw [hkind] at hspells
      cases hspells with
      | reference houtline =>
          cases houtline with
          | reference href _ => exact ⟨members, reference, hvalue, href, htarget⟩
      | leaf _ hnone => cases hnone

/-- If no chain of references is endless, every node leads to one that is no reference. -/
theorem FaithfulBy.terminates (h : FaithfulBy document s place)
    (hreach : ∀ id pointer, place id = some pointer → Reach document pointer)
    (hends : ¬∃ chain, Reach document (chain 0) ∧ EndlessChain document chain) :
    s.Terminates := by
  have hacc : ∀ pointer, Reach document pointer →
      Acc (fun target pointer => LinksTo document pointer target) pointer := by
    intro pointer hpointer
    by_contra hnot
    obtain ⟨chain, rfl, hchain⟩ := not_acc_iff_exists_descending_chain.mp hnot
    exact hends ⟨chain, hpointer, hchain⟩
  have hhere : ∀ id : Nat, (s.node id).kind.isReference = false →
      ∃ steps target, s.nodes.Leads steps id target :=
    fun id hkind => ⟨0, id, .here hkind⟩
  have hplaced : ∀ pointer, Acc (fun target pointer => LinksTo document pointer target) pointer →
      ∀ id : Nat, id < s.nodes.size → place id = some pointer →
        ∃ steps target, s.nodes.Leads steps id target := by
    intro pointer haccessible
    induction haccessible with
    | intro pointer _ ih =>
        intro id hid hplace
        cases hkind : (s.node id).kind with
        | reference reference resolved =>
            obtain ⟨next, target, rfl, hnext, hplace', hlink⟩ := h.linksTo hid hplace hkind
            obtain ⟨steps, last, hleads⟩ := ih target hlink next hnext hplace'
            exact ⟨steps + 1, last, .next hkind hleads⟩
        | _ => exact hhere id (by rw [hkind]; rfl)
  intro id hid
  cases hplace : place id with
  | none => exact hhere id (by rw [(h.unlocated id hid hplace).1]; rfl)
  | some pointer => exact hplaced pointer (hacc pointer (hreach id pointer hplace)) id hid hplace

end

namespace Schema

variable {document : Json} {s : Schema}

theorem Terminates.checkChains (h : s.Terminates) :
    Reader.checkChains s.nodes (List.range s.nodes.size) = .ok () := by
  refine Reader.checkChains_eq_ok_iff.mpr fun id hid text hloop => ?_
  obtain ⟨steps, target, hleads⟩ := h id (List.mem_range.mp hid)
  rw [Arena.dereference_eq_node_iff.mpr ⟨steps, hleads⟩] at hloop
  cases hloop

/-- If every reached location spells a schema and no chain is endless, the document is read. -/
theorem exists_read (hdistinct : document.DistinctKeys)
    (hspells : SpellsReached document)
    (hends : ¬∃ chain, Reach document (chain 0) ∧ EndlessChain document chain) :
    ∃ s, Schema.read document = .ok s := by
  have hreached : ∀ part ∈ [Part.located "" document], part.Reached document := by
    simpa [Part.Reached, Part.Fits, Part.pointer?] using Reach.root
  obtain ⟨root, d₀, hroot⟩ := Reader.schema_succeeds hdistinct hspells
    (hreached _ List.mem_cons_self) {}
  have hreads := Reader.schema_reads hroot
  have hsound := hreads.sound hdistinct (fun part hpart => (hreached part hpart).1)
    (by simp [Part.pointer?]) (Draft.sound_empty document)
  have hlocations := hreads.locations_reached hdistinct hreached (by simp)
  obtain ⟨d, hresolve, hlocations⟩ :=
    Reader.resolve_succeeds hdistinct hspells hsound hlocations hreads.lt_maxReferences
  obtain ⟨demands, hresolves⟩ := Reader.resolve_resolves hresolve
  have hrun : ReadTo document { nodes := d.nodes, root } demands d := ⟨d₀, hreads, hresolves, rfl⟩
  have hchains := ((hrun.faithful hdistinct).terminates
    (fun id pointer hplace => hlocations _ (Draft.mem_of_pointer? hplace)) hends).checkChains
  refine ⟨{ nodes := d.nodes, root }, ?_⟩
  have hdraft : (do
      let root ← Reader.schema document "" document
      Reader.resolve document (Reader.maxReferences document)
      return root : Reader NodeId).run {} = .ok (root, d) := by
    rw [StateT.run_bind, hroot]
    show ((do
      Reader.resolve document (Reader.maxReferences document)
      return root : Reader NodeId).run d₀) = _
    rw [StateT.run_bind, hresolve]
    rfl
  unfold Schema.read
  rw [hdraft]
  show (Reader.checkChains d.nodes (List.range d.nodes.size) >>= fun _ => _) = _
  rw [show Reader.checkChains d.nodes (List.range d.nodes.size) = .ok () from hchains]
  rfl

/-- A document is accepted exactly if every location that is reached is there and spells a schema,
and no chain of references from one goes on without end. -/
theorem read_succeeds_iff (hdistinct : document.DistinctKeys) :
    (∃ s, Schema.read document = .ok s) ↔
      (∀ pointer, Reach document pointer →
        ∃ value, document.at? pointer = some value ∧ SpellsSchema document value) ∧
      ¬∃ chain, Reach document (chain 0) ∧ EndlessChain document chain := by
  constructor
  · rintro ⟨s, h⟩
    have hwf := read_wellFormed hdistinct h
    have hterminates := read_terminates hdistinct h
    obtain ⟨demands, d, hrun⟩ := read_steps h
    have hfaithful := hrun.faithful hdistinct
    refine ⟨fun pointer hreach => ?_, ?_⟩
    · obtain ⟨id, hid, hplace⟩ := hfaithful.exists_node hwf hreach
      exact hfaithful.spellsSchema hrun.declaresRequired hid hplace
    · rintro ⟨chain, hstart, hchain⟩
      obtain ⟨id, hid, hplace⟩ := hfaithful.exists_node hwf hstart
      obtain ⟨steps, target, hleads⟩ := hterminates id hid
      exact hfaithful.not_leads hchain hid hplace hleads
  · rintro ⟨hspells, hends⟩
    exact exists_read hdistinct hspells hends

theorem read_succeeds_selfReferring :
    selfReferringDocument.DistinctKeys ∧
      (∀ pointer, Reach selfReferringDocument pointer →
        ∃ value, selfReferringDocument.at? pointer = some value ∧
          SpellsSchema selfReferringDocument value) ∧
      ¬∃ chain, Reach selfReferringDocument (chain 0) ∧
        EndlessChain selfReferringDocument chain :=
  ⟨selfReferringDocument_distinctKeys,
    (read_succeeds_iff selfReferringDocument_distinctKeys).mp ⟨_, read_selfReferringDocument⟩⟩

end Schema

end SchemaBridge
