/-!
Taking apart a run of steps that may fail, and that may hand on a state. A run that succeeds
succeeded in each of its steps, from the state that the step before left, and a run that fails
succeeded in its steps up to the one that failed.
-/

namespace SchemaBridge

namespace Steps

variable {σ ε α β : Type} {s s' : σ} {a : α} {b : β}

theorem of_bind_ok {x : Except ε α} {f : α → Except ε β} (h : (x >>= f) = .ok b) :
    ∃ a, x = .ok a ∧ f a = .ok b := by
  cases x with
  | error e => cases h
  | ok a => exact ⟨a, rfl, h⟩

theorem bind_ok {x : StateT σ (Except ε) α} {f : α → StateT σ (Except ε) β}
    (h : (x >>= f).run s = .ok (b, s')) :
    ∃ a s₁, x.run s = .ok (a, s₁) ∧ (f a).run s₁ = .ok (b, s') := by
  rw [StateT.run_bind] at h
  obtain ⟨r, hx, hf⟩ := of_bind_ok h
  exact ⟨r.1, r.2, hx, hf⟩

theorem lift_bind_ok {x : Except ε α} {f : α → StateT σ (Except ε) β}
    (h : ((liftM x : StateT σ (Except ε) α) >>= f).run s = .ok (b, s')) :
    ∃ a, x = .ok a ∧ (f a).run s = .ok (b, s') := by
  cases x with
  | error e => cases h
  | ok a => exact ⟨a, rfl, h⟩

theorem pure_ok {a' : α} (h : (pure a' : StateT σ (Except ε) α).run s = .ok (a, s')) :
    a = a' ∧ s' = s := by
  cases h
  exact ⟨rfl, rfl⟩

theorem get_bind_ok {f : σ → StateT σ (Except ε) β}
    (h : ((get : StateT σ (Except ε) σ) >>= f).run s = .ok (b, s')) :
    (f s).run s = .ok (b, s') :=
  h

theorem modifyGet_ok {f : σ → α × σ}
    (h : (modifyGet f : StateT σ (Except ε) α).run s = .ok (a, s')) : (a, s') = f s :=
  (Except.ok.inj h).symm

theorem throw_ok {e : ε} (h : (throw e : StateT σ (Except ε) α).run s = .ok (a, s')) : False := by
  cases h

/-! ### A run that fails -/

variable {e : ε}

theorem of_bind_error {x : Except ε α} {f : α → Except ε β} (h : (x >>= f) = .error e) :
    x = .error e ∨ ∃ a, x = .ok a ∧ f a = .error e := by
  cases x with
  | error e' =>
      cases h
      exact .inl rfl
  | ok a => exact .inr ⟨a, rfl, h⟩

theorem bind_error {x : StateT σ (Except ε) α} {f : α → StateT σ (Except ε) β}
    (h : (x >>= f).run s = .error e) :
    x.run s = .error e ∨ ∃ a s₁, x.run s = .ok (a, s₁) ∧ (f a).run s₁ = .error e := by
  rw [StateT.run_bind] at h
  rcases of_bind_error h with hx | ⟨r, hx, hf⟩
  · exact .inl hx
  · exact .inr ⟨r.1, r.2, hx, hf⟩

theorem lift_bind_error {x : Except ε α} {f : α → StateT σ (Except ε) β}
    (h : ((liftM x : StateT σ (Except ε) α) >>= f).run s = .error e) :
    x = .error e ∨ ∃ a, x = .ok a ∧ (f a).run s = .error e := by
  cases x with
  | error e' =>
      cases h
      exact .inl rfl
  | ok a => exact .inr ⟨a, rfl, h⟩

theorem pure_error (h : (pure a : StateT σ (Except ε) α).run s = .error e) : False := by
  cases h

theorem get_bind_error {f : σ → StateT σ (Except ε) β}
    (h : ((get : StateT σ (Except ε) σ) >>= f).run s = .error e) : (f s).run s = .error e :=
  h

theorem modifyGet_bind_error {g : σ → α × σ} {f : α → StateT σ (Except ε) β}
    (h : ((modifyGet g : StateT σ (Except ε) α) >>= f).run s = .error e) :
    (f (g s).1).run (g s).2 = .error e :=
  h

theorem throw_error {e' : ε} (h : (throw e' : StateT σ (Except ε) α).run s = .error e) : e = e' :=
  (Except.error.inj h).symm

end Steps

end SchemaBridge
