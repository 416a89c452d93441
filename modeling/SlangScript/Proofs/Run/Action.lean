import SlangScript.Proofs.Outcome
import SlangScript.Run.Execute

/-!
Laws of the actions of a run. An action leads from states with a property to states with another,
and to faults of a kind where it stops. An action follows another when it does the same wherever
the other one finishes, on states that are related. An action may relate every state to the one
after it, or do the same on any two states that are related. All of this passes from the parts of an
action to the whole.
-/

namespace SlangScript

variable {σ τ α β : Type}

/-- From a state with `before` on, the action gives something and a state with `after`, or stops
with a fault and a state of `stops`. -/
def Leads (before : σ → Prop) (p : Action σ α) (after : α → σ → Prop) (stops : Fault → σ → Prop) :
    Prop :=
  ∀ s, before s → (∃ a s', outcome p s = (.ok a, s') ∧ after a s') ∨
    ∃ fault s', outcome p s = (.error fault, s') ∧ stops fault s'

namespace Leads

variable {before : σ → Prop} {middle : α → σ → Prop} {after : β → σ → Prop}
  {stops caught : Fault → σ → Prop}

theorem pure {a : α} (h : ∀ s, before s → middle a s) :
    Leads before (pure a) middle stops :=
  fun s given => .inl ⟨a, s, rfl, h s given⟩

theorem throw {fault : Fault} (h : ∀ s, before s → stops fault s) :
    Leads before (throw fault) middle stops :=
  fun s given => .inr ⟨fault, s, rfl, h s given⟩

theorem mono {p : Action σ α} {before' : σ → Prop} {middle' : α → σ → Prop}
    {stops' : Fault → σ → Prop} (h : Leads before p middle stops)
    (entry : ∀ s, before' s → before s) (gives : ∀ a s, middle a s → middle' a s)
    (faults : ∀ fault s, stops fault s → stops' fault s) : Leads before' p middle' stops' := by
  intro s given
  rcases h s (entry s given) with ⟨a, s', same, holds⟩ | ⟨fault, s', same, holds⟩
  · exact .inl ⟨a, s', same, gives a s' holds⟩
  · exact .inr ⟨fault, s', same, faults fault s' holds⟩

theorem bind {p : Action σ α} {f : α → Action σ β} (hp : Leads before p middle stops)
    (hf : ∀ a, Leads (middle a) (f a) after stops) : Leads before (p >>= f) after stops := by
  intro s given
  rcases hp s given with ⟨a, s₁, first, holds⟩ | ⟨fault, s₁, first, holds⟩
  · rw [outcome_bind_ok first]
    exact hf a s₁ holds
  · rw [outcome_bind_error first]
    exact .inr ⟨fault, s₁, rfl, holds⟩

theorem tryCatch {p : Action σ α} {handle : Fault → Action σ α}
    (hp : Leads before p middle caught) (hh : ∀ fault, Leads (caught fault) (handle fault) middle stops) :
    Leads before (tryCatch p handle) middle stops := by
  intro s given
  rcases hp s given with ⟨a, s₁, first, holds⟩ | ⟨fault, s₁, first, holds⟩
  · rw [outcome_tryCatch_ok first]
    exact .inl ⟨a, s₁, rfl, holds⟩
  · rw [outcome_tryCatch_error first]
    exact hh fault s₁ holds

theorem ite {p q : Action σ α} (c : Prop) [Decidable c] (hp : Leads before p middle stops)
    (hq : Leads before q middle stops) : Leads before (if c then p else q) middle stops := by
  split
  · exact hp
  · exact hq

theorem spend {action : Nat → Action σ α} {cost depth : Nat}
    (h : ∀ depth, Leads before (action depth) middle stops)
    (short : ∀ s, before s → stops .tooDeep s) :
    Leads before (Machine.spend cost depth action) middle stops :=
  .ite _ (h _) (.throw short)

/-- A loop of so many rounds, where `state rounds` holds as long as that many are left. -/
theorem loop (state : Nat → σ → Prop) {done : σ → Prop} {round : Action σ Bool}
    (h : ∀ rounds, Leads (state (rounds + 1)) round
      (fun again s => if again then state rounds s else done s) stops)
    (spent : ∀ s, state 0 s → stops .unfinished s) (rounds : Nat) :
    Leads (state rounds) (Machine.loop round rounds) (fun _ => done) stops := by
  induction rounds with
  | zero => exact .throw spent
  | succ rounds ih =>
      refine (h rounds).bind fun again => ?_
      cases again with
      | true => exact ih
      | false => exact .pure fun _ given => given

theorem loop_of_kept {round : Action σ Bool} (h : Leads before round (fun _ => before) stops)
    (spent : ∀ s, before s → stops .unfinished s) (rounds : Nat) :
    Leads before (Machine.loop round rounds) (fun _ => before) stops := by
  refine loop (fun _ => before) (fun _ => h.mono ?_ ?_ ?_) spent rounds
  · exact fun _ given => given
  · rintro (_ | _) _ given <;> exact given
  · exact fun _ _ given => given

end Leads

/-- Wherever `p` finishes, `q` does the same, and leaves related states related. -/
def Follows (related : σ → τ → Prop) (p : Action σ α) (q : Action τ α) : Prop :=
  ∀ s t, related s t → ∀ result s', outcome p s = (result, s') →
    result ≠ .error .unfinished → ∃ t', outcome q t = (result, t') ∧ related s' t'

namespace Follows

variable {related : σ → τ → Prop}

theorem refl (p : Action σ α) : Follows (· = ·) p p := by
  rintro s _ rfl result s' same _
  exact ⟨s', same, rfl⟩

theorem pure (a : α) : Follows related (pure a) (pure a) := by
  intro s t given result s' same _
  cases same
  exact ⟨t, rfl, given⟩

theorem throw (fault : Fault) :
    Follows related (throw fault : Action σ α) (throw fault) := by
  intro s t given result s' same _
  cases same
  exact ⟨t, rfl, given⟩

/-- What is out of rounds at once may be followed by anything. -/
theorem unfinished (q : Action τ α) : Follows related (MonadExcept.throw .unfinished) q := by
  intro s t _ result s' same finished
  cases same
  exact absurd rfl finished

theorem ite {p p' : Action σ α} {q q' : Action τ α} (c : Prop) [Decidable c]
    (h : Follows related p q) (h' : Follows related p' q') :
    Follows related (if c then p else p') (if c then q else q') := by
  split
  · exact h
  · exact h'

theorem bind {p : Action σ α} {q : Action τ α} {f : α → Action σ β} {g : α → Action τ β}
    (hp : Follows related p q) (hf : ∀ a, Follows related (f a) (g a)) :
    Follows related (p >>= f) (q >>= g) := by
  intro s t given result s' same finished
  rcases first : outcome p s with ⟨fault | a, s₁⟩
  · rw [outcome_bind_error first] at same
    obtain ⟨rfl, rfl⟩ := Prod.mk.inj same
    -- The first part finished too: a fault of it is the fault of the whole.
    have kept : (.error fault : Except Fault α) ≠ .error .unfinished :=
      fun h => finished (by cases h; rfl)
    obtain ⟨t₁, second, given₁⟩ := hp s t given _ _ first kept
    exact ⟨t₁, outcome_bind_error second g, given₁⟩
  · rw [outcome_bind_ok first] at same
    obtain ⟨t₁, second, given₁⟩ := hp s t given _ _ first (by simp)
    rw [outcome_bind_ok second]
    exact hf a s₁ t₁ given₁ _ _ same finished

theorem tryCatch {p : Action σ α} {q : Action τ α} {handle : Fault → Action σ α}
    {handle' : Fault → Action τ α} (hp : Follows related p q)
    (hh : ∀ fault, Follows related (handle fault) (handle' fault))
    (passes : handle .unfinished = MonadExcept.throw .unfinished) :
    Follows related (tryCatch p handle) (tryCatch q handle') := by
  intro s t given result s' same finished
  rcases first : outcome p s with ⟨fault | a, s₁⟩
  · rw [outcome_tryCatch_error first] at same
    have kept : (.error fault : Except Fault α) ≠ .error .unfinished := by
      intro h
      cases h
      rw [passes] at same
      cases same
      exact finished rfl
    obtain ⟨t₁, second, given₁⟩ := hp s t given _ _ first kept
    rw [outcome_tryCatch_error second]
    exact hh fault s₁ t₁ given₁ _ _ same finished
  · rw [outcome_tryCatch_ok first] at same
    obtain ⟨rfl, rfl⟩ := Prod.mk.inj same
    obtain ⟨t₁, second, given₁⟩ := hp s t given _ _ first (by simp)
    exact ⟨t₁, outcome_tryCatch_ok second handle', given₁⟩

theorem spend {action : Nat → Action σ α} {action' : Nat → Action τ α}
    (h : ∀ depth, Follows related (action depth) (action' depth)) (cost depth : Nat) :
    Follows related (Machine.spend cost depth action) (Machine.spend cost depth action') :=
  .ite _ (h _) (.throw _)

theorem loop {round : Action σ Bool} {round' : Action τ Bool} (h : Follows related round round')
    {rounds rounds' : Nat} (le : rounds ≤ rounds') :
    Follows related (Machine.loop round rounds) (Machine.loop round' rounds') := by
  induction rounds generalizing rounds' with
  | zero => exact .unfinished _
  | succ rounds ih =>
      obtain ⟨more, rfl⟩ := Nat.exists_eq_add_of_lt le
      refine h.bind fun again => ?_
      cases again with
      | true => exact ih (by omega)
      | false => exact .pure ()

end Follows

/-- Wherever the action ends, the state after it is related to the one before. -/
def Along (related : σ → σ → Prop) (p : Action σ α) : Prop := ∀ s, related s (outcome p s).2

namespace Along

variable {related : σ → σ → Prop}

theorem bind {p : Action σ α} {f : α → Action σ β} (hp : Along related p)
    (hf : ∀ a, Along related (f a))
    (trans : ∀ s s₁ s₂, related s s₁ → related s₁ s₂ → related s s₂) :
    Along related (p >>= f) := by
  intro s
  have first := hp s
  rcases same : outcome p s with ⟨fault | a, s₁⟩ <;> rw [same] at first
  · rw [outcome_bind_error same]
    exact first
  · rw [outcome_bind_ok same]
    exact trans _ _ _ first (hf a s₁)

theorem tryCatch {p : Action σ α} {handle : Fault → Action σ α} (hp : Along related p)
    (hh : ∀ fault, Along related (handle fault))
    (trans : ∀ s s₁ s₂, related s s₁ → related s₁ s₂ → related s s₂) :
    Along related (tryCatch p handle) := by
  intro s
  have first := hp s
  rcases same : outcome p s with ⟨fault | a, s₁⟩ <;> rw [same] at first
  · rw [outcome_tryCatch_error same]
    exact trans _ _ _ first (hh fault s₁)
  · rw [outcome_tryCatch_ok same]
    exact first

end Along

/-- On related states the action has the same result, and leaves related states. -/
def Together (related : σ → σ → Prop) (p : Action σ α) : Prop :=
  ∀ s t, related s t → ∃ result s' t', outcome p s = (result, s') ∧ outcome p t = (result, t') ∧
    related s' t'

namespace Together

variable {related : σ → σ → Prop}

theorem pure (a : α) : Together related (pure a) :=
  fun s t given => ⟨_, s, t, rfl, rfl, given⟩

theorem throw (fault : Fault) : Together related (throw fault : Action σ α) :=
  fun s t given => ⟨_, s, t, rfl, rfl, given⟩

theorem bind {p : Action σ α} {f : α → Action σ β} (hp : Together related p)
    (hf : ∀ a, Together related (f a)) : Together related (p >>= f) := by
  intro s t given
  obtain ⟨fault | a, s₁, t₁, first, second, given₁⟩ := hp s t given
  · exact ⟨_, s₁, t₁, outcome_bind_error first f, outcome_bind_error second f, given₁⟩
  · rw [outcome_bind_ok first, outcome_bind_ok second]
    exact hf a s₁ t₁ given₁

theorem tryCatch {p : Action σ α} {handle : Fault → Action σ α} (hp : Together related p)
    (hh : ∀ fault, Together related (handle fault)) : Together related (tryCatch p handle) := by
  intro s t given
  obtain ⟨fault | a, s₁, t₁, first, second, given₁⟩ := hp s t given
  · rw [outcome_tryCatch_error first, outcome_tryCatch_error second]
    exact hh fault s₁ t₁ given₁
  · exact ⟨_, s₁, t₁, outcome_tryCatch_ok first _, outcome_tryCatch_ok second _, given₁⟩

end Together

end SlangScript
