import Mathlib.Data.List.Forall2
import SlangScript.Proofs.Grammar.Progress

/-!
Reports come in the order of the tokens. A statement that fails reports nothing on its own account,
since all that may fail in it stands before its blocks; so what is wrong with it is reported where
the list that it stands in goes on, at the token where it stopped or at its first. No token is
reported more than twice, and none again that reading has not left behind.
-/

namespace SlangScript.Parse

variable {α β : Type}

/-- The reader fails with a diagnostic at the token where it stops only. -/
def FailsHere (p : Parse α) : Prop :=
  ∀ r d r₁, outcome p r = (.error (.wrong d), r₁) → d.token = r₁.cursor.current

namespace FailsHere

theorem bind {p : Parse α} {f : α → Parse β} (hp : FailsHere p) (hf : ∀ a, FailsHere (f a)) :
    FailsHere (p >>= f) := by
  intro r d r₂ failed
  rcases same : outcome p r with ⟨failure | a, r₁⟩
  · rw [outcome_bind_error same] at failed
    cases failed
    exact hp r d _ same
  · rw [outcome_bind_ok same] at failed
    exact hf a r₁ d r₂ failed

theorem look {f : Token → Parse α} (h : ∀ t, GoesOn FailsHere t (f t)) :
    FailsHere (liftM current >>= f) := by
  intro r d r₁ failed
  rw [outcome_current_bind] at failed
  generalize f r.cursor.current = p, h r.cursor.current = goes at failed
  cases goes with
  | stay h => exact h r d r₁ failed
  | pass _ h =>
      rw [outcome_advance_bind] at failed
      exact h _ d r₁ failed

theorem liftM (p : Recover α) : FailsHere (liftM p) := by
  rintro r d r₁ ⟨⟩

theorem closed : Closed FailsHere where
  pure a := liftM (Pure.pure a)
  tooDeep := by
    rintro _ r d r₁ ⟨⟩
  failHere problem := by
    rintro r d _ ⟨⟩
    rfl
  bind := bind
  look := look

end FailsHere

theorem failsHere_law : Law FailsHere where
  toClosed := FailsHere.closed
  chain := FailsHere.closed.chain (.liftM ahead)
  list _ _ _ := .liftM _

/-- The reader reports nothing. -/
def Quiet (p : Parse α) : Prop := ∀ r, (outcome p r).2.reported = r.reported

theorem quiet_iff {p : Parse α} :
    Quiet p ↔ ∀ reported, Preserves (fun r => r.reported = reported) p :=
  ⟨fun h _ r same => (h r).trans same, fun h r => h r.reported r rfl⟩

theorem preserves_reported (reported : Array Diagnostic) :
    Closed (Preserves fun r => r.reported = reported) :=
  preserves_closed fun _ same => same

theorem quiet_closed : Closed Quiet where
  pure _ _ := rfl
  tooDeep _ := rfl
  failHere _ _ := rfl
  bind hp hf := quiet_iff.mpr fun reported =>
    (quiet_iff.mp hp reported).bind fun a => quiet_iff.mp (hf a) reported
  look h := quiet_iff.mpr fun reported => (preserves_reported reported).look fun t =>
    (h t).mono fun quiet => quiet_iff.mp quiet reported

theorem quiet_chained : Chained Quiet where
  toClosed := quiet_closed
  chain := quiet_closed.chain fun _ => rfl

/-- The reader always gives something. -/
def Sure (p : Parse α) : Prop := ∀ r, ∃ a r₁, outcome p r = (.ok a, r₁)

namespace Sure

theorem liftM (p : Recover α) : Sure (liftM p) := fun r => ⟨_, _, outcome_liftM p r⟩

theorem pure (a : α) : Sure (pure a) := liftM (Pure.pure a)

theorem bind {p : Parse α} {f : α → Parse β} (hp : Sure p) (hf : ∀ a, Sure (f a)) :
    Sure (p >>= f) := by
  intro r
  obtain ⟨a, r₁, first⟩ := hp r
  rw [outcome_bind_ok first]
  exact hf a r₁

end Sure

/-- Where the reader fails, it reported nothing. -/
def Mute (p : Parse α) : Prop :=
  ∀ r failure r₁, outcome p r = (.error failure, r₁) → r₁.reported = r.reported

theorem Quiet.mute {p : Parse α} (h : Quiet p) : Mute p := by
  intro r failure r₁ failed
  have quiet := h r
  rwa [failed] at quiet

theorem Sure.mute {p : Parse α} (h : Sure p) : Mute p := by
  intro r failure r₁ failed
  obtain ⟨a, r₂, given⟩ := h r
  rw [given] at failed
  cases failed

/-- What comes behind a quiet part may be mute. -/
theorem Quiet.bind_mute {p : Parse α} {f : α → Parse β} (hp : Quiet p) (hf : ∀ a, Mute (f a)) :
    Mute (p >>= f) := by
  intro r failure r₂ failed
  have quiet := hp r
  rcases same : outcome p r with ⟨failure' | a, r₁⟩ <;> rw [same] at quiet
  · rw [outcome_bind_error same] at failed
    cases failed
    exact quiet
  · rw [outcome_bind_ok same] at failed
    exact (hf a r₁ failure r₂ failed).trans quiet

section

variable {expression : Parse (Node Int)} {block : List Kind → Parse (List (Node Int))}

/-- Behind its condition a conditional does not fail. -/
theorem mute_conditional (he : Quiet expression) (hb : ∀ terminators, Sure (block terminators)) :
    Mute (conditional expression block) := by
  refine (quiet_closed.expect (by decide)).bind_mute fun start =>
    (quiet_closed.condition he).bind_mute fun test => Sure.mute ?_
  refine (hb _).bind fun yes => (Sure.liftM _).bind fun isElse => ?_
  cases isElse with
  | true => exact (hb _).bind fun no => (Sure.liftM _).bind fun _ => .pure _
  | false => exact (Sure.liftM _).bind fun _ => .pure _

theorem mute_repetition (he : Quiet expression) (hb : ∀ terminators, Sure (block terminators)) :
    Mute (repetition expression block) := by
  refine (quiet_closed.expect (by decide)).bind_mute fun start =>
    (quiet_closed.condition he).bind_mute fun test => Sure.mute ?_
  exact (hb _).bind fun body => (Sure.liftM _).bind fun _ => .pure _

theorem mute_statementWith (he : Quiet expression) (hb : ∀ terminators, Sure (block terminators)) :
    Mute (statementWith expression block) := by
  have start : Quiet (liftM current) := fun _ => rfl
  refine start.bind_mute fun t => ?_
  split
  · exact (quiet_closed.opens (by decide) (quiet_closed.declaration he)).mute
  · exact (quiet_closed.opens (by decide) (quiet_closed.printStatement he)).mute
  · exact (quiet_closed.opens (by decide) (quiet_closed.debugStatement he)).mute
  · exact mute_conditional he hb
  · exact mute_repetition he hb
  · exact ((Sure.liftM _).bind fun _ => .pure _).mute
  · exact ((Sure.liftM _).bind fun _ => .pure _).mute
  · exact (quiet_closed.assignment he).mute
  · exact (quiet_closed.failHere _).mute

end

/-- A statement that fails reported nothing: either the depth is enough for its blocks, which never
fail, or there is not one that reports. -/
theorem mute_statement (depth : Nat) : Mute (statement depth) := by
  have quiet := quiet_chained.expression depth
  rw [statement_eq]
  by_cases enough : blockCost ≤ depth
  · refine mute_statementWith quiet fun terminators => ?_
    rw [block, if_pos enough]
    exact .liftM _
  · refine (quiet_closed.statementWith quiet fun terminators => ?_).mute
    rw [block, if_neg enough]
    exact quiet_closed.tooDeep

/-- The diagnostics reported so far are at these places of the list of tokens, which rise to where
reading stands: none three times, and the place where it stands at most once. -/
structure Logged (tokens : List Token) (r : Reading) (places : List Nat) : Prop where
  ahead : tokens.drop r.cursor.pos = r.cursor.tokens
  found : List.Forall₂ (fun place d => tokens[place]? = some d.token) places r.reported.toList
  rising : places.Pairwise (· ≤ ·)
  behind : ∀ place ∈ places, place ≤ r.cursor.pos
  twice : ∀ place, places.count place ≤ 2
  once : places.count r.cursor.pos ≤ 1

namespace Logged

variable {tokens : List Token} {r : Reading} {places : List Nat}

theorem start (tokens : List Token) : Logged (ended tokens) (.ofTokens tokens) [] where
  ahead := by
    rw [← Cursor.tokens_ofTokens]
    exact congrArg (List.drop · _) (Cursor.ofTokens_pos tokens)
  found := .nil
  rising := .nil
  behind := nofun
  twice _ := Nat.zero_le _
  once := Nat.zero_le _

theorem current (h : Logged tokens r places) :
    tokens[r.cursor.pos]? = some r.cursor.current := by
  obtain ⟨rest, same⟩ := r.cursor.tokens_eq_current
  rw [← List.head?_drop, h.ahead, same]
  rfl

theorem pos_lt (h : Logged tokens r places) : r.cursor.pos < tokens.length :=
  (List.getElem?_eq_some_iff.mp h.current).1

theorem count_ahead (h : Logged tokens r places) {place : Nat} (ahead : r.cursor.pos < place) :
    places.count place = 0 :=
  List.count_eq_zero.mpr fun member => absurd (h.behind place member) (Nat.not_le.mpr ahead)

theorem count_from (h : Logged tokens r places) {place : Nat} (onward : r.cursor.pos ≤ place) :
    places.count place ≤ 1 := by
  rcases Nat.eq_or_lt_of_le onward with here | ahead
  · exact here ▸ h.once
  · rw [h.count_ahead ahead]
    exact Nat.zero_le 1

theorem move (h : Logged tokens r places) {c : Cursor} (moves : r.cursor.Moves c) :
    Logged tokens { r with cursor := c } places where
  ahead := by
    obtain ⟨count, le, rfl⟩ := moves
    change tokens.drop (r.cursor.pos + count) = r.cursor.rest.drop count ++ [r.cursor.last]
    rw [← List.drop_drop, h.ahead, Cursor.tokens, List.drop_append_of_le_length le]
  found := h.found
  rising := h.rising
  behind place member := Nat.le_trans (h.behind place member) moves.pos_le
  twice := h.twice
  once := by
    exact h.count_from moves.pos_le

/-- One more report, at a place from where reading stands on. -/
theorem report (h : Logged tokens r places) {c : Cursor} (moves : r.cursor.Moves c) {place : Nat}
    {d : Diagnostic} (found : tokens[place]? = some d.token) (here : r.cursor.pos ≤ place)
    (passed : place ≤ c.pos) (leaves : r.cursor.pos < c.pos) :
    Logged tokens { cursor := c, reported := r.reported.push d } (places ++ [place]) where
  ahead := (h.move moves).ahead
  found := by
    rw [Array.toList_push]
    exact List.rel_append h.found (.cons found .nil)
  rising := by
    refine List.pairwise_append.mpr ⟨h.rising, List.pairwise_singleton _ _, ?_⟩
    intro before member last single
    rw [List.mem_singleton.mp single]
    exact Nat.le_trans (h.behind before member) here
  behind before member := by
    rcases List.mem_append.mp member with member | single
    · exact Nat.le_trans (h.behind before member) moves.pos_le
    · exact List.mem_singleton.mp single ▸ passed
  twice other := by
    rw [List.count_append]
    by_cases same : other = place
    · have before := h.count_from here
      have last : [place].count place ≤ 1 := List.count_le_length
      rw [same]
      omega
    · rw [List.count_eq_zero.mpr fun single => same (List.mem_singleton.mp single)]
      exact h.twice other
  once := by
    rw [List.count_append, h.count_ahead leaves, Nat.zero_add]
    exact List.count_le_length

end Logged

/-- The diagnostics reported so far are at rising places of the list of tokens. -/
def Logs (tokens : List Token) (r : Reading) : Prop := ∃ places, Logged tokens r places

/-- A statement that fails is reported where it stopped, or at its first token if it nests too
deeply, and reading goes on behind its first token. -/
theorem Logged.turn {tokens : List Token} {r : Reading} {places : List Nat}
    (h : Logged tokens r places) {depth : Nat} (keeps : Preserves (Logs tokens) (statement depth))
    {terminators : List Kind} (going : endsAt terminators r.cursor.current = false) :
    Logs tokens (turn (statement depth) terminators r).2 := by
  have kept := keeps r ⟨places, h⟩
  have forward := forward_law.statement depth
  have moved := forward.turn terminators r
  have leaves := pos_lt_turn forward (Takes.statement depth) going
  have stopped := forward r
  unfold Parse.turn at moved leaves ⊢
  rcases given : outcome (statement depth) r with ⟨failure | node, r₁⟩ <;>
    rw [given] at kept moved leaves stopped
  · have quiet := mute_statement depth r failure r₁ given
    cases failure with
    | wrong d =>
        have here := failsHere_law.statement depth r d r₁ given
        have found : tokens[r₁.cursor.pos]? = some d.token := here ▸ (h.move stopped).current
        have passed := (moves_recover terminators r (.wrong d) r₁).pos_le
        exact ⟨_, quiet ▸ h.report moved found stopped.pos_le passed leaves⟩
    | tooDeep =>
        exact ⟨_, quiet ▸ h.report moved h.current (Nat.le_refl _) (Nat.le_of_lt leaves) leaves⟩
  · exact kept

theorem logs_closed (tokens : List Token) : Closed (Preserves (Logs tokens)) :=
  preserves_closed fun r ⟨places, logged⟩ => ⟨places, logged.move r.cursor.moves_advance⟩

theorem logs_law (tokens : List Token) : Law (Preserves (Logs tokens)) where
  toClosed := logs_closed tokens
  chain := (logs_closed tokens).chain fun _ logs => logs
  list _ _ keeps r logs :=
    statementsFrom_induction (fun _ going ⟨_, logged⟩ => logged.turn keeps going) r.cursor.rest logs

/-- What is reported while a list of tokens is read is at rising places of it, none three times and
the last one at most once. -/
theorem exists_places (tokens : List Token) : ∃ places : List Nat,
    List.Forall₂ (fun place d => (ended tokens)[place]? = some d.token) places
        (parse tokens).diagnostics ∧
      places.Pairwise (· ≤ ·) ∧ (∀ place ∈ places, place < (ended tokens).length) ∧
      (∀ place, places.count place ≤ 2) ∧ places.count ((ended tokens).length - 1) ≤ 1 := by
  have keeps := (logs_law (ended tokens)).statement depthLimit
  obtain ⟨places, logged⟩ :=
    (logs_law (ended tokens)).list depthLimit [] keeps (.ofTokens tokens) ⟨[], .start tokens⟩
  have within := logged.pos_lt
  exact ⟨places, logged.found, logged.rising,
    fun place member => Nat.lt_of_le_of_lt (logged.behind place member) within, logged.twice,
    logged.count_from (by omega)⟩

end SlangScript.Parse
