import SchemaBridge.SchemaReading

/-!
Chains of references. A chain leads from a node over the targets of references to a node that is no
reference, if it comes to an end at all; its length and its end are determined by its start. Main
statement: dereferencing a node finds the end of its chain exactly if there is one.
-/

namespace SchemaBridge

namespace Arena

/-- The chain of references from a node leads to another one in a number of steps. -/
inductive Leads (arena : Arena) : Nat → NodeId → NodeId → Prop
  | here {id : NodeId} (hkind : (arena.node id).kind.isReference = false) : Leads arena 0 id id
  | next {steps : Nat} {id next target : NodeId} {text : String}
      (hkind : (arena.node id).kind = .reference text (some next))
      (hrest : Leads arena steps next target) : Leads arena (steps + 1) id target

variable {arena : Arena}

theorem Leads.not_reference {steps : Nat} {id target : NodeId} (h : arena.Leads steps id target) :
    (arena.node target).kind.isReference = false := by
  induction h with
  | here hkind => exact hkind
  | next _ _ ih => exact ih

/-- A chain has one length and one end. -/
theorem Leads.unique {steps steps' : Nat} {id target target' : NodeId}
    (h : arena.Leads steps id target) (h' : arena.Leads steps' id target') :
    steps = steps' ∧ target = target' := by
  induction h generalizing steps' with
  | here hkind =>
      cases h' with
      | here => exact ⟨rfl, rfl⟩
      | next hkind' =>
          rw [hkind'] at hkind
          cases hkind
  | next hkind _ ih =>
      cases h' with
      | here hkind' =>
          rw [hkind] at hkind'
          cases hkind'
      | next hkind' hrest' =>
          rw [hkind] at hkind'
          cases hkind'
          obtain ⟨hsteps, htarget⟩ := ih hrest'
          exact ⟨by rw [hsteps], htarget⟩

/-- A chain is followed to its end if none of the nodes that were passed is on it. -/
theorem Leads.chase {steps : Nat} {id target : NodeId} {passed : List NodeId}
    (h : arena.Leads steps id target)
    (hpassed : ∀ p ∈ passed, ∀ n ≤ steps, ∀ t, ¬arena.Leads n p t) :
    arena.chase passed id = .node target := by
  induction h generalizing passed with
  | @here id hkind =>
      rw [Arena.chase]
      split
      · rename_i text resolved href
        rw [href] at hkind
        cases hkind
      · rfl
  | @next steps id next target text hkind hrest ih =>
      have hfresh : id ∉ passed := by
        intro hmem
        exact hpassed id hmem _ (Nat.le_refl _) target (.next hkind hrest)
      have hlater : ∀ p ∈ id :: passed, ∀ n ≤ steps, ∀ t, ¬arena.Leads n p t := by
        intro p hp n hn t hleads
        rcases List.mem_cons.mp hp with rfl | hp
        · have heq := (hleads.unique (.next hkind hrest)).1
          omega
        · exact hpassed p hp n (by omega) t hleads
      rw [Arena.chase]
      split
      · rename_i text' resolved href
        rw [hkind] at href
        cases href
        rw [dif_neg hfresh]
        exact ih hlater
      · rename_i hnone
        exact (hnone _ _ hkind).elim

theorem leads_of_chase {passed : List NodeId} {id target : NodeId}
    (h : arena.chase passed id = .node target) : ∃ steps, arena.Leads steps id target := by
  fun_induction Arena.chase arena passed id with
  | case1 => cases h
  | case2 passed id text _ next hkind _ ih =>
      obtain ⟨steps, hleads⟩ := ih h
      exact ⟨steps + 1, .next hkind hleads⟩
  | case3 => cases h
  | case4 passed id hnone =>
      cases h
      refine ⟨0, .here ?_⟩
      cases hkind : (arena.node target).kind with
      | reference text resolved => exact (hnone text resolved hkind).elim
      | _ => rfl

/-- A node is dereferenced to the end of its chain, exactly if the chain has one. -/
theorem dereference_eq_node_iff {id target : NodeId} :
    arena.dereference id = .node target ↔ ∃ steps, arena.Leads steps id target := by
  constructor
  · exact leads_of_chase
  · rintro ⟨steps, hleads⟩
    exact hleads.chase (by simp)

theorem unresolved_of_chase {passed : List NodeId} {id : NodeId} {text : String}
    (h : arena.chase passed id = .unresolved text) :
    ∃ i, (arena.node i).kind = .reference text none := by
  fun_induction Arena.chase arena passed id with
  | case1 => cases h
  | case2 _ _ _ _ _ _ _ ih => exact ih h
  | case3 passed id text' _ hkind _ =>
      cases h
      exact ⟨id, hkind⟩
  | case4 => cases h

theorem Leads.lt_size {steps : Nat} {id target : Nat} (h : arena.Leads steps id target)
    (htarget : ∀ (i : Nat) text (t : Nat),
      (arena.node i).kind = .reference text (some t) → t < arena.size)
    (hid : id < arena.size) : target < arena.size := by
  induction h with
  | here => exact hid
  | next hkind _ ih => exact ih (htarget _ _ _ hkind)

end Arena

/-- The chains are checked node by node. -/
theorem Reader.checkChains_eq_ok_iff {nodes : Arena} {ids : List NodeId} :
    checkChains nodes ids = .ok () ↔ ∀ id ∈ ids, ∀ text, nodes.dereference id ≠ .loop text := by
  induction ids with
  | nil => simp [checkChains]
  | cons id rest ih =>
      rw [checkChains, List.forall_mem_cons]
      split
      · rename_i text hloop
        constructor
        · intro h
          cases h
        · intro h
          exact absurd hloop (h.1 text)
      · rename_i hnone
        rw [ih]
        constructor
        · intro h
          exact ⟨fun text hloop => hnone text hloop, h⟩
        · intro h
          exact h.2

end SchemaBridge
