import SchemaBridge.Proofs.StepInversion

/-!
Runs of steps that do not fail, at all or with an error of a certain sort. A run has either property
if its steps have it, whatever state they start from.
-/

namespace SchemaBridge

namespace Steps

variable {σ ε α β : Type} {E : ε → Prop}

/-- A step does not fail with an error of a certain sort. -/
def Avoids (E : ε → Prop) (x : Except ε α) : Prop :=
  ∀ e, x = .error e → ¬E e

theorem Avoids.ok (a : α) : Avoids E (.ok a) := by
  intro e h
  cases h

theorem Avoids.error {e : ε} (h : ¬E e) : Avoids E (.error e : Except ε α) := by
  rintro e' ⟨⟩
  exact h

theorem Avoids.bind {x : Except ε α} {f : α → Except ε β} (hx : Avoids E x)
    (hf : ∀ a, x = .ok a → Avoids E (f a)) : Avoids E (x >>= f) := by
  intro e h
  cases hxa : x with
  | error e' =>
      rw [hxa] at h
      cases h
      exact hx e hxa
  | ok a =>
      rw [hxa] at h
      exact hf a hxa e h

/-- From no state does a step fail with an error of a certain sort. -/
def RunAvoids (E : ε → Prop) (x : StateT σ (Except ε) α) : Prop :=
  ∀ s, Avoids E (x.run s)

theorem RunAvoids.bind {x : StateT σ (Except ε) α} {f : α → StateT σ (Except ε) β}
    (hx : RunAvoids E x) (hf : ∀ a, RunAvoids E (f a)) : RunAvoids E (x >>= f) := by
  intro s
  rw [StateT.run_bind]
  apply (hx s).bind
  intro r _
  exact hf r.1 r.2

theorem RunAvoids.pure (a : α) : RunAvoids E (pure a : StateT σ (Except ε) α) :=
  fun s => .ok (a, s)

theorem RunAvoids.get : RunAvoids E (MonadState.get : StateT σ (Except ε) σ) :=
  fun s => .ok (s, s)

theorem RunAvoids.modifyGet (f : σ → α × σ) :
    RunAvoids E (modifyGet f : StateT σ (Except ε) α) :=
  fun s => .ok (f s)

theorem RunAvoids.throw {e : ε} (h : ¬E e) : RunAvoids E (throw e : StateT σ (Except ε) α) :=
  fun _ => .error h

theorem RunAvoids.lift {x : Except ε α} (h : Avoids E x) :
    RunAvoids E (liftM x : StateT σ (Except ε) α) := by
  intro s
  apply h.bind
  intro a _
  exact .ok (a, s)

theorem RunAvoids.throw_bind {e : ε} {f : α → StateT σ (Except ε) β} (h : ¬E e) :
    RunAvoids E ((MonadExcept.throw e : StateT σ (Except ε) α) >>= f) :=
  fun _ => .error h

theorem run_get_bind (f : σ → StateT σ (Except ε) α) (s : σ) : (get >>= f).run s = (f s).run s :=
  rfl

theorem run_set_bind (f : PUnit → StateT σ (Except ε) α) (s s' : σ) :
    (set s' >>= f).run s = (f ⟨⟩).run s' :=
  rfl

theorem lift_ok_bind (a : β) (f : β → StateT σ (Except ε) α) :
    ((liftM (.ok a : Except ε β) : StateT σ (Except ε) β) >>= f) = f a :=
  rfl

/-- After a failure it does not matter what would have been done. -/
theorem lift_error_bind (e : ε) (f g : β → StateT σ (Except ε) α) :
    ((liftM (.error e : Except ε β) : StateT σ (Except ε) β) >>= f) =
      ((liftM (.error e : Except ε β) : StateT σ (Except ε) β) >>= g) :=
  rfl

/-- A step does not fail, whatever state it starts from. -/
def Succeeds (x : StateT σ (Except ε) α) : Prop :=
  ∀ s, ∃ a s', x.run s = .ok (a, s')

theorem Succeeds.bind {x : StateT σ (Except ε) α} {f : α → StateT σ (Except ε) β}
    (hx : Succeeds x) (hf : ∀ a s s', x.run s = .ok (a, s') → Succeeds (f a)) :
    Succeeds (x >>= f) := by
  intro s
  obtain ⟨a, s', ha⟩ := hx s
  obtain ⟨b, s'', hb⟩ := hf a s s' ha s'
  refine ⟨b, s'', ?_⟩
  rw [StateT.run_bind, ha]
  exact hb

theorem Succeeds.pure (a : α) : Succeeds (pure a : StateT σ (Except ε) α) :=
  fun s => ⟨a, s, rfl⟩

theorem Succeeds.modifyGet (f : σ → α × σ) : Succeeds (modifyGet f : StateT σ (Except ε) α) :=
  fun s => ⟨(f s).1, (f s).2, rfl⟩

theorem Succeeds.lift_bind {x : Except ε α} {f : α → StateT σ (Except ε) β} {a : α}
    (hx : x = .ok a) (hf : Succeeds (f a)) :
    Succeeds ((liftM x : StateT σ (Except ε) α) >>= f) := by
  rw [hx]
  exact hf

/-- A run of a step from a state gives a result of which `Q` holds, or it fails and `F` holds. -/
def Ends (F : Prop) (x : StateT σ (Except ε) α) (s : σ) (Q : α → σ → Prop) : Prop :=
  (∃ a s', x.run s = .ok (a, s') ∧ Q a s') ∨ (∃ e, x.run s = .error e) ∧ F

variable {F : Prop} {s : σ} {Q : α → σ → Prop}

theorem Ends.bind {x : StateT σ (Except ε) α} {f : α → StateT σ (Except ε) β}
    {R : β → σ → Prop} (hx : Ends F x s Q)
    (hf : ∀ a s', x.run s = .ok (a, s') → Q a s' → Ends F (f a) s' R) :
    Ends F (x >>= f) s R := by
  rcases hx with ⟨a, s', hrun, hq⟩ | ⟨⟨e, herror⟩, hF⟩
  · have hrest : (x >>= f).run s = (f a).run s' := by
      rw [StateT.run_bind, hrun]
      rfl
    rw [Ends, hrest]
    exact hf a s' hrun hq
  · refine .inr ⟨⟨e, ?_⟩, hF⟩
    rw [StateT.run_bind, herror]
    rfl

theorem Ends.imp {x : StateT σ (Except ε) α} {R : α → σ → Prop} (hx : Ends F x s Q)
    (h : ∀ a s', Q a s' → R a s') : Ends F x s R :=
  hx.imp_left fun ⟨a, s', hrun, hq⟩ => ⟨a, s', hrun, h a s' hq⟩

theorem Ends.pure {a : α} (h : Q a s) : Ends F (pure a : StateT σ (Except ε) α) s Q :=
  .inl ⟨a, s, rfl, h⟩

theorem Ends.fail {e : ε} (h : F) : Ends F (throw e : StateT σ (Except ε) α) s Q :=
  .inr ⟨⟨e, rfl⟩, h⟩

theorem Ends.get_bind {f : σ → StateT σ (Except ε) α} (h : Ends F (f s) s Q) :
    Ends F (get >>= f) s Q :=
  h

theorem Ends.modify_bind {g : σ → σ} {f : PUnit → StateT σ (Except ε) α}
    (h : Ends F (f ⟨⟩) (g s) Q) : Ends F (modify g >>= f) s Q :=
  h

theorem Ends.modifyGet_bind {g : σ → α × σ} {f : α → StateT σ (Except ε) β} {R : β → σ → Prop}
    (h : Ends F (f (g s).1) (g s).2 R) : Ends F (modifyGet g >>= f) s R :=
  h

theorem Ends.lift_bind {x : Except ε α} {f : α → StateT σ (Except ε) β} {a : α}
    {R : β → σ → Prop} (hx : x = .ok a) (h : Ends F (f a) s R) :
    Ends F ((liftM x : StateT σ (Except ε) α) >>= f) s R := by
  rw [hx]
  exact h

end Steps

end SchemaBridge
