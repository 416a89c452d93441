/-!
Computations that keep a state and may fail. The outcome of one is what it gives, or its failure,
and the state after it; the outcome of a sequence is put together from those of its parts.
-/

namespace SlangScript

variable {ε σ α β : Type}

/-- What a computation gives from a state on, and the state after it. -/
def outcome (p : ExceptT ε (StateM σ) α) (s : σ) : Except ε α × σ := p.run.run s

@[simp] theorem outcome_liftM (p : StateM σ α) (s : σ) :
    outcome (liftM p : ExceptT ε (StateM σ) α) s = (.ok (p.run s).1, (p.run s).2) := rfl

theorem outcome_liftM_eq_ok {p : StateM σ α} {s s' : σ} {a : α} :
    outcome (liftM p : ExceptT ε (StateM σ) α) s = (.ok a, s') ↔ p.run s = (a, s') := by
  rw [outcome_liftM]
  constructor
  · intro h
    obtain ⟨given, after⟩ := Prod.mk.inj h
    exact Prod.ext (Except.ok.inj given) after
  · intro h
    rw [h]

theorem run_stateM_bind (p : StateM σ α) (f : α → StateM σ β) (s : σ) :
    (p >>= f).run s = (f (p.run s).1).run (p.run s).2 := rfl

theorem outcome_bind_ok {p : ExceptT ε (StateM σ) α} {s s₁ : σ} {a : α}
    (h : outcome p s = (.ok a, s₁)) (f : α → ExceptT ε (StateM σ) β) :
    outcome (p >>= f) s = outcome (f a) s₁ := by
  unfold outcome at h ⊢
  rw [ExceptT.run_bind, StateT.run_bind, h]
  rfl

theorem outcome_bind_error {p : ExceptT ε (StateM σ) α} {s s₁ : σ} {e : ε}
    (h : outcome p s = (.error e, s₁)) (f : α → ExceptT ε (StateM σ) β) :
    outcome (p >>= f) s = (.error e, s₁) := by
  unfold outcome at h ⊢
  rw [ExceptT.run_bind, StateT.run_bind, h]
  rfl

@[simp] theorem outcome_liftM_bind (p : StateM σ α) (f : α → ExceptT ε (StateM σ) β) (s : σ) :
    outcome (liftM p >>= f) s = outcome (f (p.run s).1) (p.run s).2 :=
  outcome_bind_ok (outcome_liftM p s) f

theorem outcome_tryCatch_ok {p : ExceptT ε (StateM σ) α} {s s₁ : σ} {a : α}
    (h : outcome p s = (.ok a, s₁)) (handle : ε → ExceptT ε (StateM σ) α) :
    outcome (tryCatch p handle) s = (.ok a, s₁) := by
  unfold outcome at h ⊢
  rw [ExceptT.run_tryCatch, StateT.run_bind, h]
  rfl

theorem outcome_tryCatch_error {p : ExceptT ε (StateM σ) α} {s s₁ : σ} {e : ε}
    (h : outcome p s = (.error e, s₁)) (handle : ε → ExceptT ε (StateM σ) α) :
    outcome (tryCatch p handle) s = outcome (handle e) s₁ := by
  unfold outcome at h ⊢
  rw [ExceptT.run_tryCatch, StateT.run_bind, h]
  rfl

theorem outcome_bind_eq_ok {p : ExceptT ε (StateM σ) α} {f : α → ExceptT ε (StateM σ) β}
    {s s₂ : σ} {b : β} (h : outcome (p >>= f) s = (.ok b, s₂)) :
    ∃ a s₁, outcome p s = (.ok a, s₁) ∧ outcome (f a) s₁ = (.ok b, s₂) := by
  rcases hp : outcome p s with ⟨e | a, s₁⟩
  · rw [outcome_bind_error hp] at h
    cases h
  · rw [outcome_bind_ok hp] at h
    exact ⟨a, s₁, rfl, h⟩

end SlangScript
