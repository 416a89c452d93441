import SlangScript.Grammar.Parse
import SlangScript.Proofs.Outcome

/-!
Two laws that a reader of tokens can have. It reads something when it gives that, moves the cursor
behind it and reports nothing. It yields a relation when whatever it gives without a report is
related to the tokens before and after it. Both pass from the parts of a reader to the whole.
-/

namespace SlangScript

/-- The tokens from the cursor on, with the one that ends the text. -/
def Cursor.tokens (c : Cursor) : List Token := c.rest ++ [c.last]

theorem Cursor.length_tokens (c : Cursor) : c.tokens.length = c.rest.length + 1 := by
  simp [Cursor.tokens]

theorem Cursor.tokens_eq_current (c : Cursor) : ∃ a, c.tokens = c.current :: a := by
  unfold Cursor.tokens Cursor.current
  cases c.rest with
  | nil => exact ⟨[], rfl⟩
  | cons t rest => exact ⟨rest ++ [c.last], rfl⟩

theorem Cursor.current_of_tokens {c : Cursor} {t : Token} {a : List Token}
    (h : c.tokens = t :: a) : c.current = t := by
  obtain ⟨b, same⟩ := c.tokens_eq_current
  rw [h] at same
  cases same
  rfl

theorem Cursor.advance_tokens {c : Cursor} {t : Token} {a : List Token} (h : c.tokens = t :: a)
    (inside : t.kind ≠ .mark .eof) : c.advance.tokens = a := by
  have current := current_of_tokens h
  unfold Cursor.tokens at h
  cases hr : c.rest with
  | nil =>
      have atEnd := kind_of_rest_eq_nil hr
      rw [Cursor.kind, current] at atEnd
      exact absurd atEnd inside
  | cons s rest =>
      simp only [hr, List.cons_append, List.cons.injEq] at h
      simp [Cursor.advance, hr, Cursor.tokens, h.2]

/-- The tokens as they are read: with an end, unless they have one. -/
def ended (tokens : List Token) : List Token :=
  if tokens.getLast?.any Token.isEof then tokens else tokens ++ [⟨.mark .eof, 1, 1⟩]

theorem ended_of_isEof {body : List Token} {last : Token} (ends : last.isEof = true) :
    ended (body ++ [last]) = body ++ [last] := by
  simp [ended, ends]

theorem Cursor.tokens_ofTokens (tokens : List Token) : (ofTokens tokens).tokens = ended tokens := by
  rcases List.eq_nil_or_concat tokens with rfl | ⟨body, last, rfl⟩
  · rfl
  · cases ends : last.isEof <;> simp [ofTokens, Cursor.tokens, ended, ends]

theorem Cursor.ofTokens_pos (tokens : List Token) : (ofTokens tokens).pos = 0 := by
  unfold ofTokens
  split
  · split <;> rfl
  · rfl

theorem Token.kind_of_isEof {t : Token} (h : t.isEof = true) : t.kind = .mark .eof := by
  simpa [Token.isEof] using h

theorem Token.lexeme_of_kind {t : Token} {mark : Mark} (h : t.kind = .mark mark) :
    t.lexeme = .mark mark := by
  unfold Token.kind at h
  cases hl : t.lexeme with
  | mark other => simpa [hl, Lexeme.kind] using h
  | ident | number | text | flag => simp [hl, Lexeme.kind] at h

namespace Parse

variable {α β : Type}

theorem outcome_current_bind (f : Token → Parse α) (r : Reading) :
    outcome (liftM current >>= f) r = outcome (f r.cursor.current) r := outcome_liftM_bind _ f r

theorem outcome_advance_bind (f : Unit → Parse α) (r : Reading) :
    outcome (liftM advance >>= f) r = outcome (f ()) { r with cursor := r.cursor.advance } :=
  outcome_liftM_bind _ f r

theorem outcome_expect_same {kind : Kind} {r : Reading} (same : r.cursor.current.kind = kind) :
    outcome (expect kind) r =
      (.ok r.cursor.current, { r with cursor := r.cursor.advance }) := by
  rw [expect, outcome_current_bind, if_pos same]
  rfl

theorem outcome_expect_other {kind : Kind} {r : Reading} (other : r.cursor.current.kind ≠ kind) :
    outcome (expect kind) r =
      (.error (.wrong ⟨.expected kind r.cursor.current.kind, r.cursor.current⟩), r) := by
  rw [expect, outcome_current_bind, if_neg other]
  rfl

/-- From the tokens `a` on, the reader gives `x`, leaves `b` and reports nothing. -/
def Reads (p : Parse α) (a : List Token) (x : α) (b : List Token) : Prop :=
  ∀ r : Reading, r.cursor.tokens = a →
    ∃ c : Cursor, outcome p r = (.ok x, { r with cursor := c }) ∧ c.tokens = b

theorem Reads.pure (x : α) (a : List Token) : Reads (pure x) a x a :=
  fun r h => ⟨r.cursor, rfl, h⟩

theorem Reads.bind {p : Parse α} {f : α → Parse β} {a b c : List Token} {x : α} {y : β}
    (hp : Reads p a x b) (hf : Reads (f x) b y c) : Reads (p >>= f) a y c := by
  intro r h
  obtain ⟨c₁, first, h₁⟩ := hp r h
  obtain ⟨c₂, second, h₂⟩ := hf { r with cursor := c₁ } h₁
  exact ⟨c₂, (outcome_bind_ok first f).trans second, h₂⟩

theorem reads_current (t : Token) (a : List Token) : Reads (liftM current) (t :: a) t (t :: a) := by
  intro r h
  refine ⟨r.cursor, ?_, h⟩
  rw [← Cursor.current_of_tokens h]
  rfl

theorem reads_advance {t : Token} {a : List Token} (inside : t.kind ≠ .mark .eof) :
    Reads (liftM advance) (t :: a) () a :=
  fun _ h => ⟨_, rfl, Cursor.advance_tokens h inside⟩

theorem reads_expect {t : Token} {a : List Token} {kind : Kind} (same : t.kind = kind)
    (inside : kind ≠ .mark .eof) : Reads (expect kind) (t :: a) t a := by
  intro r h
  have current := Cursor.current_of_tokens h
  subst current
  exact ⟨_, outcome_expect_same same, Cursor.advance_tokens h (same ▸ inside)⟩

theorem run_takeIf (kind : Kind) (r : Reading) :
    (takeIf kind).run r = if r.cursor.current.kind = kind
      then (true, { r with cursor := r.cursor.advance }) else (false, r) := by
  unfold takeIf
  change StateT.run (if r.cursor.current.kind = kind then _ else _) r = _
  split <;> rfl

theorem reads_takeIf_same {t : Token} {a : List Token} {kind : Kind} (same : t.kind = kind)
    (inside : kind ≠ .mark .eof) : Reads (liftM (takeIf kind)) (t :: a) true a := by
  intro r h
  have current := Cursor.current_of_tokens h
  refine ⟨r.cursor.advance, ?_, Cursor.advance_tokens h (same ▸ inside)⟩
  rw [outcome_liftM, run_takeIf, current, if_pos same]

theorem reads_takeIf_other {t : Token} {a : List Token} {kind : Kind} (other : t.kind ≠ kind) :
    Reads (liftM (takeIf kind)) (t :: a) false (t :: a) := by
  intro r h
  refine ⟨r.cursor, ?_, h⟩
  rw [outcome_liftM, run_takeIf, Cursor.current_of_tokens h, if_neg other]

/-- Reports only grow, and what the reader gives without a report is related to the tokens before
and after it. -/
structure Yields (p : Parse α) (R : List Token → α → List Token → Prop) : Prop where
  grows : ∀ r, r.reported.size ≤ (outcome p r).2.reported.size
  gives : ∀ {r x r₁}, outcome p r = (.ok x, r₁) → r₁.reported.size = r.reported.size →
    R r.cursor.tokens x r₁.cursor.tokens

theorem Yields.mono {p : Parse α} {R S : List Token → α → List Token → Prop} (h : Yields p R)
    (implies : ∀ {a x b}, R a x b → S a x b) : Yields p S :=
  ⟨h.grows, fun same quiet => implies (h.gives same quiet)⟩

theorem Yields.ended {p : Parse α} {R : List Token → α → List Token → Prop}
    (h : Yields p fun a x b => (∃ body last, a = body ++ [last] ∧ last.isEof = true) → R a x b) :
    Yields p R :=
  ⟨h.grows, fun {r} _ _ same quiet =>
    h.gives same quiet ⟨r.cursor.rest, r.cursor.last, rfl, r.cursor.last_isEof⟩⟩

theorem Yields.pure (x : α) : Yields (pure x) fun a y b => y = x ∧ b = a := by
  refine ⟨fun r => Nat.le_refl _, ?_⟩
  intro r y r₁ h _
  cases h
  exact ⟨rfl, rfl⟩

theorem Yields.throw (failure : Failure) : Yields (throw failure : Parse α) fun _ _ _ => False := by
  refine ⟨fun r => Nat.le_refl _, ?_⟩
  intro r y r₁ h _
  cases h

theorem Yields.bind {p : Parse α} {f : α → Parse β} {R : List Token → α → List Token → Prop}
    {S : α → List Token → β → List Token → Prop} (hp : Yields p R) (hf : ∀ x, Yields (f x) (S x)) :
    Yields (p >>= f) fun a y c => ∃ x b, R a x b ∧ S x b y c := by
  constructor
  · intro r
    have first := hp.grows r
    rcases h : outcome p r with ⟨e | x, r₁⟩
    · rw [outcome_bind_error h]
      simpa only [h] using first
    · rw [outcome_bind_ok h]
      rw [h] at first
      exact Nat.le_trans first ((hf x).grows r₁)
  · intro r y r₂ h quiet
    obtain ⟨x, r₁, first, second⟩ := outcome_bind_eq_ok h
    -- Reports only grow, so neither part can have added one.
    have grows₁ := hp.grows r
    have grows₂ := (hf x).grows r₁
    simp only [first, second] at grows₁ grows₂
    exact ⟨x, r₁.cursor.tokens, hp.gives first (by omega), (hf x).gives second (by omega)⟩

theorem Yields.map {p : Parse α} {R : List Token → α → List Token → Prop} (h : Yields p R)
    (g : α → β) : Yields (do return g (← p)) fun a y b => ∃ x, R a x b ∧ y = g x := by
  refine (h.bind fun x => Yields.pure (g x)).mono ?_
  rintro a y c ⟨x, b, given, rfl, rfl⟩
  exact ⟨x, given, rfl⟩

theorem Yields.of_current {f : Token → Parse α} {R : List Token → α → List Token → Prop}
    (h : ∀ t, Yields (f t) fun a x b => ∀ rest, a = t :: rest → R a x b) :
    Yields (liftM current >>= f) R := by
  constructor
  · intro r
    rw [outcome_liftM_bind]
    exact (h _).grows r
  · intro r x r₁ same quiet
    rw [outcome_liftM_bind] at same
    obtain ⟨rest, tokens⟩ := r.cursor.tokens_eq_current
    exact (h _).gives same quiet rest tokens

theorem yields_ahead : Yields (liftM ahead) fun a x b => b = a ∧ a.length = x.length + 1 := by
  refine ⟨fun r => Nat.le_refl _, ?_⟩
  intro r t r₁ h _
  cases h
  exact ⟨rfl, r.cursor.length_tokens⟩

theorem Yields.of_advance {f : Unit → Parse α} {R : List Token → α → List Token → Prop} {t : Token}
    (inside : t.kind ≠ .mark .eof) (h : Yields (f ()) fun a x b => R (t :: a) x b) :
    Yields (liftM advance >>= f) fun a x b => ∀ rest, a = t :: rest → R a x b := by
  constructor
  · intro r
    rw [outcome_advance_bind]
    exact h.grows { r with cursor := r.cursor.advance }
  · intro r x r₁ same quiet rest tokens
    rw [outcome_advance_bind] at same
    have passed := Cursor.advance_tokens tokens inside
    have given := h.gives same quiet
    rw [passed] at given
    exact tokens ▸ given

theorem yields_failHere {R : List Token → α → List Token → Prop} (problem : Kind → Problem) :
    Yields (failHere problem : Parse α) R :=
  .of_current fun _ => (Yields.throw _).mono False.elim

theorem Yields.of_expect {f : Token → Parse α} {R : List Token → α → List Token → Prop} {kind : Kind}
    (inside : kind ≠ .mark .eof)
    (h : ∀ t, t.kind = kind → Yields (f t) fun a x b => R (t :: a) x b) :
    Yields (expect kind >>= f) R := by
  constructor
  · intro r
    by_cases same : r.cursor.current.kind = kind
    · rw [outcome_bind_ok (outcome_expect_same same)]
      exact (h _ same).grows { r with cursor := r.cursor.advance }
    · exact Nat.le_of_eq (by rw [outcome_bind_error (outcome_expect_other same)])
  · intro r x r₁ given quiet
    by_cases same : r.cursor.current.kind = kind
    · rw [outcome_bind_ok (outcome_expect_same same)] at given
      obtain ⟨rest, tokens⟩ := r.cursor.tokens_eq_current
      have related := (h _ same).gives given quiet
      rw [Cursor.advance_tokens tokens (same ▸ inside)] at related
      exact tokens ▸ related
    · rw [outcome_bind_error (outcome_expect_other same)] at given
      cases given

theorem yields_takeIf {kind : Kind} (inside : kind ≠ .mark .eof) :
    Yields (liftM (takeIf kind)) fun a taken b => ∃ t rest, a = t :: rest ∧
      (taken = true ∧ t.kind = kind ∧ b = rest ∨ taken = false ∧ t.kind ≠ kind ∧ b = a) := by
  constructor
  · intro r
    rw [outcome_liftM, run_takeIf]
    split <;> exact Nat.le_refl _
  · intro r taken r₁ h _
    obtain ⟨rest, tokens⟩ := r.cursor.tokens_eq_current
    rw [outcome_liftM, run_takeIf] at h
    refine ⟨r.cursor.current, rest, tokens, ?_⟩
    split at h
    · next same =>
        cases h
        exact .inl ⟨rfl, same, Cursor.advance_tokens tokens (same ▸ inside)⟩
    · next other =>
        cases h
        exact .inr ⟨rfl, other, rfl⟩

/-- A reader that goes one of two ways, whether or not it passes a token of a kind. -/
theorem Yields.of_takeIf {f : Bool → Parse α} {R : List Token → α → List Token → Prop} {kind : Kind}
    (inside : kind ≠ .mark .eof)
    (same : Yields (f true) fun a x b => ∀ t, t.kind = kind → R (t :: a) x b)
    (other : Yields (f false) fun a x b => (∀ t ∈ a.head?, t.kind ≠ kind) → R a x b) :
    Yields (liftM (takeIf kind) >>= f) R := by
  refine ((yields_takeIf inside).bind (S := fun taken a x b => match taken with
    | true => ∀ t, t.kind = kind → R (t :: a) x b
    | false => (∀ t ∈ a.head?, t.kind ≠ kind) → R a x b) fun taken => ?_).mono ?_
  · cases taken with
    | true => exact same
    | false => exact other
  · rintro a x c ⟨_, b, ⟨t, rest, rfl, ⟨rfl, kind, rfl⟩ | ⟨rfl, kind, rfl⟩⟩, related⟩
    · exact related t kind
    · exact related (by simpa using kind)

end Parse

end SlangScript
