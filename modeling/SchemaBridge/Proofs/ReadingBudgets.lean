import SchemaBridge.Proofs.ReadingSuccess

/-!
The budgets of reading do not matter. The branches of a combinator unfold no deeper than the texts
of the document allow, and no more references wait than it has values for each text, so beyond that
every budget gives the same outcome, be it a result or an error. Main statements: this holds of the
unfolding of a branch and of the resolution of the waiting references.
-/

namespace SchemaBridge

theorem foldlM_congr {ε α β : Type} {f g : β → α → Except ε β} {xs : List α}
    (h : ∀ x ∈ xs, ∀ b, f b x = g b x) (b : β) : xs.foldlM f b = xs.foldlM g b := by
  induction xs generalizing b with
  | nil => rfl
  | cons x rest ih =>
      obtain ⟨hfirst, hrest⟩ := List.forall_mem_cons.mp h
      rw [List.foldlM_cons, List.foldlM_cons, hfirst]
      congr 1
      funext b'
      exact ih hrest b'

namespace UnionTypes

theorem addBranches_congr {read read' : BranchReader} {branches : List Json}
    (h : ∀ branch ∈ branches, ∀ pointer types,
      read pointer branch types = read' pointer branch types)
    (base : String) (index : Nat) (types : List JsonType) :
    addBranches read base index branches types = addBranches read' base index branches types := by
  induction branches generalizing index types with
  | nil => rfl
  | cons branch rest ih =>
      obtain ⟨hfirst, hrest⟩ := List.forall_mem_cons.mp h
      rw [addBranches, addBranches, hfirst]
      congr 1
      funext found
      exact ih hrest (index + 1) found

variable {document : Json}

/-- Beyond the depth that is left to a branch, every budget unfolds it alike. -/
theorem addBranch_budget {budget : Nat} :
    ∀ {budget' : Nat} {followed : List String} {branch : Json}, document.Within branch →
    depthLeft document followed branch ≤ budget → depthLeft document followed branch ≤ budget' →
    ∀ pointer types,
      addBranch document budget followed pointer branch types =
        addBranch document budget' followed pointer branch types := by
  induction budget with
  | zero =>
      intro budget' followed branch _ hbudget
      have hpos := branch.size_pos
      rw [depthLeft] at hbudget
      omega
  | succ budget ih =>
      intro budget' followed branch hwithin hbudget hbudget' pointer types
      obtain ⟨budget', rfl⟩ : ∃ n, budget' = n + 1 := by
        have hpos := branch.size_pos
        rw [depthLeft] at hbudget'
        exact ⟨budget' - 1, by omega⟩
      cases branch with
      | object members =>
          rw [addBranch, addBranch]
          split
          · rename_i reference href
            split
            · rfl
            · rename_i hfresh
              congr 1
              funext target
              cases htarget : document.at? target with
              | none => rfl
              | some value =>
                  have hinside := Json.within_of_at? htarget
                  have hlt : depthLeft document (reference :: followed) value <
                      depthLeft document followed (.object members) :=
                    depthLeft_target_lt (hwithin.text_mem href) hfresh hinside.size_le
                  exact ih hinside (by omega) (by omega) target types
          · rfl
          · split
            · rfl
            · apply foldlM_congr
              rintro ⟨keyword, branches⟩ hlist types'
              apply addBranches_congr
              intro branch hbranch pointer' types''
              obtain ⟨-, hlookup⟩ := mem_nested.mp hlist
              have hsize := Json.size_le_sizeElements hbranch
              have hsize' := Json.size_le_sizeMembers hlookup
              rw [Json.size] at hsize'
              have hlt : depthLeft document followed branch <
                  depthLeft document followed (.object members) := by
                simp only [depthLeft, Json.size]
                omega
              exact ih ((hwithin.member hlookup).element hbranch) (by omega) (by omega) pointer'
                types''
      | _ => rfl

end UnionTypes

namespace Reader

open Steps

variable {document : Json}

/-- Beyond the number of references that may still wait, every budget resolves them alike. -/
theorem resolve_budget (hdistinct : document.DistinctKeys) {budget : Nat} :
    ∀ {budget' : Nat} {d : Draft}, d.Sound document →
      d.pending.length + d.unread document * document.size < budget →
      d.pending.length + d.unread document * document.size < budget' →
      (resolve document budget).run d = (resolve document budget').run d := by
  induction budget with
  | zero => intro _ _ _ hbudget; exact absurd hbudget (Nat.not_lt_zero _)
  | succ budget ih =>
      intro budget' d hd hbudget hbudget'
      obtain ⟨budget', rfl⟩ : ∃ n, budget' = n + 1 := ⟨budget' - 1, by omega⟩
      cases hpending : d.pending with
      | nil =>
          rw [resolve, resolve, run_get_bind, run_get_bind]
          simp only [hpending]
      | cons id rest =>
          cases hkind : (d.nodes.node id).kind with
          | reference reference resolved =>
              rw [resolve_step hpending hkind, resolve_step hpending hkind, StateT.run_bind,
                StateT.run_bind]
              cases hfound : (target document reference).run { d with pending := rest } with
              | error e => rfl
              | ok r =>
                  obtain ⟨found, d₁⟩ := r
                  obtain ⟨hsound, hless⟩ := bind_lowers hdistinct hd hpending hkind hfound
                  have hless' : (d₁.bind id found).pending.length +
                      (d₁.bind id found).unread document * document.size <
                        d.pending.length + d.unread document * document.size := hless
                  exact ih hsound (Nat.lt_of_lt_of_le hless' (Nat.le_of_lt_succ hbudget))
                    (Nat.lt_of_lt_of_le hless' (Nat.le_of_lt_succ hbudget'))
          | _ =>
              have hskip : (d.nodes.node id).kind.isReference = false := by rw [hkind]; rfl
              rw [resolve_skip hpending hskip, resolve_skip hpending hskip]
              rw [hpending, List.length_cons] at hbudget hbudget'
              have hbudget₀ : rest.length + d.unread document * document.size < budget := by omega
              have hbudget₁ : rest.length + d.unread document * document.size < budget' := by omega
              exact ih (hd.setPending rest) hbudget₀ hbudget₁

end Reader

end SchemaBridge
