import Mathlib.Order.Bounds.Basic
import SchemaBridge.Proofs.AvroNames

/-!
How names are issued. A base that is taken is followed by the numbers from two on, one after the
other, until the name is free. The search has no bound of its own: it ends because finitely many
names are taken and different numbers give different names. Main statement: the search ends at the
least number, the name that it gives is all that is added to the issued names, and so the names of
any sequence of requests are different, also when a base looks like a numbered name.
-/

namespace SchemaBridge

namespace AvroEmission

/-- The search for a free name that has come to a number: it ends at the number if the name with it
is free, and goes on with the next number if that name is taken. -/
inductive Search (issued : List String) (base : String) : Nat → Nat → Prop
  | stop {k : Nat} (hfree : base ++ toString k ∉ issued) : Search issued base k k
  | next {k last : Nat} (htaken : base ++ toString k ∈ issued)
      (hrest : Search issued base (k + 1) last) : Search issued base k last

section

variable {issued : List String} {base : String}

/-- The search ends at the least number that gives a free name. -/
theorem Search.isLeast {first last : Nat} (h : Search issued base first last) :
    IsLeast {k | first ≤ k ∧ base ++ toString k ∉ issued} last := by
  induction h with
  | stop hfree => exact ⟨⟨Nat.le_refl _, hfree⟩, fun k hk => hk.1⟩
  | @next first last htaken _ ih =>
      obtain ⟨⟨hle, hfree⟩, hleast⟩ := ih
      refine ⟨⟨Nat.le_of_succ_le hle, hfree⟩, fun k hk => ?_⟩
      have hne : first ≠ k := by
        rintro rfl
        exact hk.2 htaken
      exact hleast ⟨Nat.lt_of_le_of_ne hk.1 hne, hk.2⟩

theorem Search.unique {first last last' : Nat} (h : Search issued base first last)
    (h' : Search issued base first last') : last = last' :=
  h.isLeast.unique h'.isLeast

/-- The search ends, wherever it starts. -/
theorem exists_search (issued : List String) (base : String) (first : Nat) :
    ∃ last, Search issued base first last := by
  obtain ⟨k, -, hfree⟩ := exists_free issued base first
  -- the distance to a free name falls with every name that is taken
  induction k generalizing first with
  | zero => exact ⟨first, .stop (by rwa [Nat.zero_add] at hfree)⟩
  | succ k ih =>
      by_cases htaken : base ++ toString first ∈ issued
      · rw [Nat.add_assoc, Nat.add_comm 1 first] at hfree
        obtain ⟨last, hrest⟩ := ih (first + 1) hfree
        exact ⟨last, .next htaken hrest⟩
      · exact ⟨first, .stop htaken⟩

/-- A base that is taken gets the number at which the search from two ends. It passes over no more
numbers than there are names. -/
theorem freshName_search (h : base ∈ issued) :
    ∃ last ≤ issued.length + 2, Search issued base 2 last ∧
      freshName issued base = base ++ toString last := by
  obtain ⟨k, hk, hname, hfree, hbefore⟩ := freshName_of_mem h
  have hleast : IsLeast {k | 2 ≤ k ∧ base ++ toString k ∉ issued} (k + 2) := by
    refine ⟨⟨Nat.le_add_left 2 k, hfree⟩, fun j ⟨htwo, hj⟩ => ?_⟩
    by_contra hlt
    obtain ⟨i, rfl⟩ := Nat.exists_eq_add_of_le' htwo
    exact hj (hbefore i (by omega))
  obtain ⟨last, hsearch⟩ := exists_search issued base 2
  rw [hleast.unique hsearch.isLeast] at hname
  exact ⟨last, by rw [← hleast.unique hsearch.isLeast]; omega, hsearch, hname⟩

end

namespace Progress

/-- The names that definitions get which ask for them one after the other, each with its node and
its base, and the progress behind them. -/
def defineAll (p : Progress) : List (NodeId × String) → List String × Progress
  | [] => ([], p)
  | (id, base) :: rest =>
    let (name, p₁) := p.define id base
    let (names, p') := p₁.defineAll rest
    (name :: names, p')

theorem define_not_mem (p : Progress) (id : NodeId) (base : String) :
    (p.define id base).1 ∉ p.issued :=
  freshName_not_mem p.issued base

/-- The names that are issued in the end are those at the start and those of the requests. -/
theorem defineAll_issued (p : Progress) (requests : List (NodeId × String)) :
    (p.defineAll requests).2.issued = (p.defineAll requests).1.reverse ++ p.issued := by
  induction requests generalizing p with
  | nil => rfl
  | cons request rest ih =>
      obtain ⟨id, base⟩ := request
      have hrest := ih (p.define id base).2
      rw [defineAll, List.reverse_cons, List.append_assoc]
      exact hrest

theorem defineAll_not_mem {p : Progress} {requests : List (NodeId × String)} {name : String}
    (h : name ∈ (p.defineAll requests).1) : name ∉ p.issued := by
  induction requests generalizing p with
  | nil => exact (List.not_mem_nil h).elim
  | cons request rest ih =>
      obtain ⟨id, base⟩ := request
      rcases List.mem_cons.mp h with rfl | h
      · exact p.define_not_mem id base
      · exact fun hmem => ih h (List.mem_cons_of_mem _ hmem)

theorem defineAll_nodup (p : Progress) (requests : List (NodeId × String)) :
    (p.defineAll requests).1.Nodup := by
  induction requests generalizing p with
  | nil => exact List.nodup_nil
  | cons request rest ih =>
      obtain ⟨id, base⟩ := request
      -- the first name is issued when the later ones are asked for
      refine List.nodup_cons.mpr ⟨fun hmem => ?_, ih _⟩
      exact defineAll_not_mem hmem List.mem_cons_self

/-- Names are issued fresh, and with the least number. The search for a number ends, whatever names
are issued and whatever the base is. A definition gets its base if that is free, and otherwise the
base with the number at which the search from two ends, the least that gives a free name, which
passes over no more numbers than there are names; the name is added to the issued ones, and nothing
else changes but the table. The names that any sequence of requests gets are different, and none of
them was issued before. -/
theorem define_fresh (p : Progress) :
    (∀ base first, ∃! last, Search p.issued base first last) ∧
    (∀ id base, base ∉ p.issued → (p.define id base).1 = base) ∧
    (∀ id base, base ∈ p.issued → ∃ last ≤ p.issued.length + 2, Search p.issued base 2 last ∧
      IsLeast {k | 2 ≤ k ∧ base ++ toString k ∉ p.issued} last ∧
      (p.define id base).1 = base ++ toString last) ∧
    (∀ id base, (p.define id base).1 ∉ p.issued ∧ (p.define id base).2 = { p with
      named := (id, (p.define id base).1) :: p.named
      issued := (p.define id base).1 :: p.issued }) ∧
    ∀ requests, (p.defineAll requests).1.Nodup ∧
      (∀ name ∈ (p.defineAll requests).1, name ∉ p.issued) ∧
      (p.defineAll requests).2.issued = (p.defineAll requests).1.reverse ++ p.issued := by
  refine ⟨fun base first => ?_, fun id base hfree => freshName_of_not_mem hfree,
    fun id base htaken => ?_, fun id base => ⟨p.define_not_mem id base, rfl⟩, fun requests => ?_⟩
  · obtain ⟨last, hsearch⟩ := exists_search p.issued base first
    exact ⟨last, hsearch, fun last' h => h.unique hsearch⟩
  · obtain ⟨last, hle, hsearch, hname⟩ := freshName_search htaken
    exact ⟨last, hle, hsearch, hsearch.isLeast, hname⟩
  · exact ⟨p.defineAll_nodup requests, fun name => defineAll_not_mem, p.defineAll_issued requests⟩

/-- Bases of which one looks like a numbered form of the others. -/
def alikeRequests : List (NodeId × String) :=
  [(0, "A"), (1, "A2"), (2, "A"), (3, "A")]

theorem define_fresh_alike :
    (({} : Progress).defineAll alikeRequests).1 = ["A", "A2", "A3", "A4"] ∧
      (({} : Progress).defineAll alikeRequests).1.Nodup ∧
      "A" ∈ (({} : Progress).defineAll alikeRequests).2.issued ∧
      ∃ last ≤ 6, Search (({} : Progress).defineAll alikeRequests).2.issued "A" 2 last ∧
        ((({} : Progress).defineAll alikeRequests).2.define 4 "A").1 = "A" ++ toString last := by
  have hnames : (({} : Progress).defineAll alikeRequests).1 = ["A", "A2", "A3", "A4"] := by decide
  obtain ⟨-, -, -, -, hall⟩ := define_fresh {}
  have htaken : "A" ∈ (({} : Progress).defineAll alikeRequests).2.issued := by decide
  obtain ⟨-, -, hnumbered, -⟩ := define_fresh (({} : Progress).defineAll alikeRequests).2
  obtain ⟨last, hle, hsearch, -, hname⟩ := hnumbered 4 "A" htaken
  exact ⟨hnames, (hall alikeRequests).1, htaken, last, hle, hsearch, hname⟩

end Progress

end AvroEmission

end SchemaBridge
