import Mathlib.Data.List.Forall2
import SlangScript.Proofs.Grammar.Law
import SlangScript.Proofs.Grammar.Recovery
import SlangScript.Proofs.Node.Printer

/-!
Reading looks at what the tokens say, and only hands on where they stand. Two lists of tokens that
say the same are read in step, token by token: into trees that differ in their tags alone, with the
same problems, each at tokens that stand at one place of the two lists.
-/

namespace SlangScript.Parse

variable {α α' β β' : Type}

/-- A way to pair tokens that say the same. -/
structure Pairing where
  paired : Token → Token → Prop
  lexeme : ∀ {t t' : Token}, paired t t' → t.lexeme = t'.lexeme

theorem Pairing.kind (π : Pairing) {t t' : Token} (h : π.paired t t') : t.kind = t'.kind :=
  congrArg Lexeme.kind (π.lexeme h)

/-- The same problem, at paired tokens. -/
structure Pairing.Diagnostics (π : Pairing) (d d' : Diagnostic) : Prop where
  problem : d.problem = d'.problem
  token : π.paired d.token d'.token

inductive Pairing.Failures (π : Pairing) : Failure → Failure → Prop
  | wrong {d d' : Diagnostic} : π.Diagnostics d d' → Failures π (.wrong d) (.wrong d')
  | tooDeep : Failures π .tooDeep .tooDeep

/-- Cursors at one place, with paired tokens ahead. -/
structure Pairing.Cursors (π : Pairing) (c c' : Cursor) : Prop where
  pos : c.pos = c'.pos
  rest : List.Forall₂ π.paired c.rest c'.rest
  last : π.paired c.last c'.last

structure Pairing.Readings (π : Pairing) (r r' : Reading) : Prop where
  cursor : π.Cursors r.cursor r'.cursor
  reported : List.Forall₂ π.Diagnostics r.reported.toList r'.reported.toList

inductive Pairing.Results (π : Pairing) (related : α → α' → Prop) :
    Except Failure α → Except Failure α' → Prop
  | ok {a : α} {a' : α'} : related a a' → Results π related (.ok a) (.ok a')
  | error {failure failure' : Failure} : π.Failures failure failure' →
      Results π related (.error failure) (.error failure')

namespace Pairing.Cursors

variable {π : Pairing} {c c' : Cursor}

theorem current (h : π.Cursors c c') : π.paired c.current c'.current := by
  have rest := h.rest
  unfold Cursor.current
  generalize c.rest = ahead, c'.rest = ahead' at rest
  cases rest with
  | nil => exact h.last
  | cons first _ => exact first

theorem of_tokens (pos : c.pos = c'.pos) (h : List.Forall₂ π.paired c.tokens c'.tokens) :
    π.Cursors c c' := by
  unfold Cursor.tokens at h
  rw [← List.forall₂_reverse_iff, List.reverse_append, List.reverse_append] at h
  cases h with
  | cons last rest => exact ⟨pos, List.forall₂_reverse_iff.mp rest, last⟩

theorem advance (h : π.Cursors c c') : π.Cursors c.advance c'.advance := by
  obtain ⟨pos, ahead, last, _⟩ := c
  obtain ⟨pos', ahead', last', _⟩ := c'
  obtain ⟨same, rest, lasts⟩ := h
  cases rest with
  | nil => exact ⟨same, .nil, lasts⟩
  | cons _ rest => exact ⟨congrArg (· + 1) same, rest, lasts⟩

theorem skipUntil (h : π.Cursors c c') (stops : Kind → Bool) :
    π.Cursors (c.skipUntil stops) (c'.skipUntil stops) := by
  have skipped : (c.rest.takeWhile fun t => !stops t.kind).length =
      (c'.rest.takeWhile fun t => !stops t.kind).length := by
    generalize c.rest = ahead, c'.rest = ahead', h.rest = rest
    induction rest with
    | nil => rfl
    | @cons t t' ahead ahead' first _ ih =>
        rw [List.takeWhile_cons, List.takeWhile_cons, π.kind first]
        split
        · exact congrArg (· + 1) ih
        · rfl
  unfold Cursor.skipUntil
  rw [skipped]
  exact ⟨congrArg (· + _) h.pos, List.forall₂_drop _ h.rest, h.last⟩

end Pairing.Cursors

/-- On paired readings both fail, of the same, or both give something, and that is related; and they
leave paired readings. -/
def InStep (π : Pairing) (related : α → α' → Prop) (p : Parse α) (p' : Parse α') : Prop :=
  ∀ r r', π.Readings r r' → π.Results related (outcome p r).1 (outcome p' r').1 ∧
    π.Readings (outcome p r).2 (outcome p' r').2

namespace InStep

variable {π : Pairing} {related : α → α' → Prop} {related' : β → β' → Prop}

theorem pure {a : α} {a' : α'} (h : related a a') :
    InStep π related (pure a : Parse α) (pure a' : Parse α') :=
  fun _ _ paired => ⟨.ok h, paired⟩

theorem tooDeep : InStep π related (tooDeep : Parse α) (tooDeep : Parse α') :=
  fun _ _ paired => ⟨.error .tooDeep, paired⟩

theorem bind {p : Parse α} {p' : Parse α'} {f : α → Parse β} {f' : α' → Parse β'}
    (hp : InStep π related p p') (hf : ∀ a a', related a a' → InStep π related' (f a) (f' a')) :
    InStep π related' (p >>= f) (p' >>= f') := by
  intro r r' paired
  obtain ⟨results, after⟩ := hp r r' paired
  rcases given : outcome p r with ⟨result, r₁⟩
  rcases given' : outcome p' r' with ⟨result', r₁'⟩
  rw [given, given'] at results after
  cases results with
  | ok same =>
      rw [outcome_bind_ok given, outcome_bind_ok given']
      exact hf _ _ same r₁ r₁' after
  | error same =>
      rw [outcome_bind_error given, outcome_bind_error given']
      exact ⟨.error same, after⟩

theorem look {f : Token → Parse β} {f' : Token → Parse β'}
    (h : ∀ t t', π.paired t t' → InStep π related' (f t) (f' t')) :
    InStep π related' (liftM current >>= f) (liftM current >>= f') :=
  bind (fun _ _ paired => ⟨.ok paired.cursor.current, paired⟩) h

theorem pass {f : Unit → Parse β} {f' : Unit → Parse β'} (h : InStep π related' (f ()) (f' ())) :
    InStep π related' (liftM advance >>= f) (liftM advance >>= f') :=
  fun r r' paired => h { r with cursor := r.cursor.advance } { r' with cursor := r'.cursor.advance }
    ⟨paired.cursor.advance, paired.reported⟩

theorem failHere (problem : Kind → Problem) :
    InStep π related (failHere problem : Parse α) (failHere problem : Parse α') :=
  look fun _ _ same _ _ paired =>
    ⟨.error (.wrong ⟨congrArg problem (π.kind same), same⟩), paired⟩

theorem expect (kind : Kind) : InStep π π.paired (expect kind) (expect kind) := by
  refine look fun t t' same => ?_
  rw [π.kind same]
  split
  · exact pass (pure same)
  · exact failHere _

theorem takeIf (kind : Kind) :
    InStep π Eq (liftM (takeIf kind) : Parse Bool) (liftM (takeIf kind) : Parse Bool) := by
  rw [takeIf_eq]
  refine look fun t t' same => ?_
  rw [π.kind same]
  split
  · exact pass (pure rfl)
  · exact pure rfl

end InStep

/-- The same tree, but for the tags. -/
def Alike (node node' : Node Int) : Prop := node.untag = node'.untag

def AllAlike (nodes nodes' : List (Node Int)) : Prop :=
  Node.untagAll nodes = Node.untagAll nodes'

namespace InStep

variable {π : Pairing} {operand inner : Parse (Node Int)}

theorem chainFrom (level : Level) (h : InStep π Alike operand operand) {ahead ahead' : List Token}
    (turns : ahead.length = ahead'.length) {left left' : Node Int} (same : Alike left left') :
    InStep π Alike (chainFrom level operand ahead left) (chainFrom level operand ahead' left') := by
  induction ahead generalizing ahead' left left' with
  | nil =>
      obtain rfl := List.length_eq_zero_iff.mp turns.symm
      exact pure same
  | cons _ ahead ih =>
      obtain ⟨_, ahead', rfl⟩ := List.exists_cons_of_length_eq_add_one turns.symm
      refine look fun t t' paired => ?_
      rw [π.kind paired]
      split
      · exact pure same
      · exact pass (h.bind fun _ _ same' => ih (Nat.succ.inj turns)
          (congrArg₂ (Node.binary () · _ ·) same same'))

theorem chain (level : Level) (h : InStep π Alike operand operand) :
    InStep π Alike (chain level operand) (chain level operand) := by
  have ahead : InStep π (fun ts ts' => ts.length = ts'.length) (liftM ahead : Parse (List Token))
      (liftM ahead : Parse (List Token)) :=
    fun _ _ paired => ⟨.ok paired.cursor.rest.length_eq, paired⟩
  exact h.bind fun _ _ same => ahead.bind fun _ _ turns => h.chainFrom level turns same

theorem atomWith (h : InStep π Alike inner inner) :
    InStep π Alike (atomWith inner) (atomWith inner) := by
  refine look fun t t' same => ?_
  rw [← π.lexeme same]
  split
  · exact pass (pure rfl)
  · exact pass (pure rfl)
  · exact pass (pure rfl)
  · exact pass (pure rfl)
  · exact pass (h.bind fun _ _ same => (takeIf _).bind fun _ _ _ => pure same)
  · exact failHere _

theorem unaryWith (ho : InStep π Alike operand operand) (hi : InStep π Alike inner inner) :
    InStep π Alike (unaryWith operand inner) (unaryWith operand inner) := by
  refine look fun t t' same => ?_
  rw [← π.kind same]
  split
  · exact pass (ho.bind fun _ _ same => pure (congrArg (Node.unary () _) same))
  · exact hi.atomWith

theorem levels {unary : Parse (Node Int)} (h : InStep π Alike unary unary) (ls : List Level) :
    InStep π Alike (ls.foldr Parse.chain unary) (ls.foldr Parse.chain unary) := by
  induction ls with
  | nil => exact h
  | cons level ls ih => exact ih.chain level

theorem unary (π : Pairing) (depth : Nat) : InStep π Alike (unary depth) (unary depth) := by
  induction depth using Nat.strongRecOn with
  | ind depth ih =>
      cases depth with
      | zero => exact unaryWith tooDeep tooDeep
      | succ depth =>
          rw [unary_succ]
          refine unaryWith (ih depth (Nat.lt_succ_self depth)) ?_
          rw [expression]
          split
          · exact (ih _ (by simp only [expressionCost]; omega)).levels Grammar.levels
          · exact tooDeep

theorem expression (π : Pairing) (depth : Nat) :
    InStep π Alike (expression depth) (expression depth) := by
  rw [Parse.expression]
  split
  · exact (unary π _).levels Grammar.levels
  · exact tooDeep

section

variable {expression : Parse (Node Int)} {block : List Kind → Parse (List (Node Int))}

theorem condition (h : InStep π Alike expression expression) :
    InStep π Alike (condition expression) (condition expression) :=
  (takeIf _).bind fun _ _ _ => h.bind fun _ _ same => (takeIf _).bind fun _ _ _ => pure same

theorem declaration (h : InStep π Alike expression expression) :
    InStep π Alike (declaration expression) (declaration expression) := by
  refine (expect _).bind fun _ _ _ => look fun t t' same => ?_
  rw [← π.lexeme same]
  split
  · exact pass ((expect _).bind fun _ _ _ => h.bind fun _ _ same =>
      pure (congrArg (Node.declare () _) same))
  · exact failHere _

theorem assignment (h : InStep π Alike expression expression) :
    InStep π Alike (assignment expression) (assignment expression) := by
  refine look fun t t' same => ?_
  rw [← π.lexeme same]
  split
  · refine pass (look fun u u' same => ?_)
    rw [π.kind same]
    split
    · exact failHere _
    · exact pass (h.bind fun _ _ same => pure (congrArg (Node.assign () _) same))
  · exact failHere _

theorem printStatement (h : InStep π Alike expression expression) :
    InStep π Alike (printStatement expression) (printStatement expression) :=
  (expect _).bind fun _ _ _ => (takeIf _).bind fun _ _ _ => h.bind fun _ _ same =>
    pure (congrArg (Node.print ()) same)

theorem debugStatement (h : InStep π Alike expression expression) :
    InStep π Alike (debugStatement expression) (debugStatement expression) :=
  (expect _).bind fun _ _ _ => h.bind fun _ _ same => pure (congrArg (Node.debugPrint ()) same)

theorem conditional (h : InStep π Alike expression expression)
    (hb : ∀ terminators, InStep π AllAlike (block terminators) (block terminators)) :
    InStep π Alike (conditional expression block) (conditional expression block) := by
  refine (expect _).bind fun _ _ _ => h.condition.bind fun _ _ test => (hb _).bind fun _ _ yes =>
    (takeIf _).bind fun isElse _ same => ?_
  subst same
  cases isElse with
  | true =>
      refine (hb _).bind fun _ _ no => (takeIf _).bind fun _ _ _ => pure ?_
      rw [Alike, Node.untag, Node.untag, test, yes, no]
  | false => exact (takeIf _).bind fun _ _ _ => pure (congrArg₂ (Node.ifThen ()) test yes)

theorem repetition (h : InStep π Alike expression expression)
    (hb : ∀ terminators, InStep π AllAlike (block terminators) (block terminators)) :
    InStep π Alike (repetition expression block) (repetition expression block) :=
  (expect _).bind fun _ _ _ => h.condition.bind fun _ _ test => (hb _).bind fun _ _ body =>
    (takeIf _).bind fun _ _ _ => pure (congrArg₂ (Node.whileDo ()) test body)

theorem statementWith (h : InStep π Alike expression expression)
    (hb : ∀ terminators, InStep π AllAlike (block terminators) (block terminators)) :
    InStep π Alike (statementWith expression block) (statementWith expression block) := by
  refine look fun t t' same => ?_
  rw [← π.kind same]
  split
  · exact h.declaration
  · exact h.printStatement
  · exact h.debugStatement
  · exact h.conditional hb
  · exact h.repetition hb
  · exact pass (pure rfl)
  · exact pass (pure rfl)
  · exact h.assignment
  · exact failHere _

end

end InStep

section

variable {π : Pairing} {statement : Parse (Node Int)} {r r' : Reading}

theorem Pairing.Readings.report (h : π.Readings r r') {d d' : Diagnostic}
    (same : π.Diagnostics d d') {c c' : Cursor} (cursors : π.Cursors c c') :
    π.Readings { cursor := c, reported := r.reported.push d }
      { cursor := c', reported := r'.reported.push d' } := by
  refine ⟨cursors, ?_⟩
  rw [Array.toList_push, Array.toList_push]
  exact List.rel_append h.reported (.cons same .nil)

theorem Pairing.Readings.recover (start : π.Readings r r') {failure failure' : Failure}
    (same : π.Failures failure failure') {stop stop' : Reading} (h : π.Readings stop stop')
    (terminators : List Kind) :
    π.Readings (recover terminators r failure stop) (recover terminators r' failure' stop') := by
  cases same with
  | wrong same =>
      refine h.report same ?_
      rw [h.cursor.pos, start.cursor.pos]
      split
      · exact h.cursor.advance
      · exact h.cursor
  | tooDeep =>
      have here : π.Diagnostics ⟨.tooDeep, r.cursor.current⟩ ⟨.tooDeep, r'.cursor.current⟩ :=
        ⟨rfl, start.cursor.current⟩
      exact h.report here (h.cursor.advance.skipUntil _)

theorem Pairing.endsAt (π : Pairing) {t t' : Token} (h : π.paired t t') (terminators : List Kind) :
    endsAt terminators t = endsAt terminators t' := by
  rw [Parse.endsAt, Parse.endsAt, Token.isEof, Token.isEof, π.kind h]

namespace InStep

theorem turn (h : InStep π Alike statement statement) (terminators : List Kind)
    (paired : π.Readings r r') :
    AllAlike (turn statement terminators r).1.toList (turn statement terminators r').1.toList ∧
      π.Readings (turn statement terminators r).2 (turn statement terminators r').2 := by
  obtain ⟨results, after⟩ := h r r' paired
  unfold Parse.turn
  rcases given : outcome statement r with ⟨result, r₁⟩
  rcases given' : outcome statement r' with ⟨result', r₁'⟩
  rw [given, given'] at results after
  cases results with
  | ok same => exact ⟨congrArg (fun node => [node]) same, after⟩
  | error same => exact ⟨rfl, paired.recover same after terminators⟩

theorem statementsFrom (h : InStep π Alike statement statement) (terminators : List Kind)
    {ahead ahead' : List Token} (turns : ahead.length = ahead'.length) (paired : π.Readings r r') :
    AllAlike ((statementsFrom statement terminators ahead).run r).1
        ((statementsFrom statement terminators ahead').run r').1 ∧
      π.Readings ((statementsFrom statement terminators ahead).run r).2
        ((statementsFrom statement terminators ahead').run r').2 := by
  induction ahead generalizing ahead' r r' with
  | nil =>
      obtain rfl := List.length_eq_zero_iff.mp turns.symm
      exact ⟨rfl, paired⟩
  | cons t ahead ih =>
      obtain ⟨t', ahead', rfl⟩ := List.exists_cons_of_length_eq_add_one turns.symm
      have ends := π.endsAt paired.cursor.current terminators
      cases going : endsAt terminators r.cursor.current with
      | true =>
          rw [run_statementsFrom_end going, run_statementsFrom_end (ends ▸ going)]
          exact ⟨rfl, paired⟩
      | false =>
          obtain ⟨first, onward⟩ := h.turn terminators paired
          obtain ⟨rest, after⟩ := ih (Nat.succ.inj turns) onward
          rw [run_statementsFrom_turn going, run_statementsFrom_turn (ends ▸ going)]
          refine ⟨?_, after⟩
          rw [AllAlike, Node.untagAll_append, Node.untagAll_append, first, rest]

theorem statementsWith (h : InStep π Alike statement statement) (terminators : List Kind) :
    InStep π AllAlike (liftM (statementsWith statement terminators))
      (liftM (statementsWith statement terminators)) := by
  intro r r' paired
  obtain ⟨same, after⟩ := h.statementsFrom terminators paired.cursor.rest.length_eq paired
  exact ⟨.ok same, after⟩

end InStep

end

/-- Statements are read in step. The induction is on the depth, which a block makes smaller. -/
theorem inStep_statement (π : Pairing) (depth : Nat) :
    InStep π Alike (statement depth) (statement depth) := by
  induction depth using Nat.strongRecOn with
  | ind depth ih =>
      rw [statement_eq]
      refine (InStep.expression π depth).statementWith fun terminators => ?_
      rw [block]
      split
      · refine (ih _ ?_).statementsWith terminators
        simp only [blockCost] at *
        omega
      · exact .tooDeep

theorem Pairing.readings (π : Pairing) {tokens tokens' : List Token}
    (h : List.Forall₂ π.paired (ended tokens) (ended tokens')) :
    π.Readings (.ofTokens tokens) (.ofTokens tokens') := by
  rw [← Cursor.tokens_ofTokens, ← Cursor.tokens_ofTokens] at h
  have pos : (Cursor.ofTokens tokens).pos = (Cursor.ofTokens tokens').pos := by
    rw [Cursor.ofTokens_pos, Cursor.ofTokens_pos]
  exact ⟨.of_tokens pos h, .nil⟩

/-- Tokens that say the same are read as the same program, but for its tags, with the same problems,
each at paired tokens. -/
theorem parse_paired (π : Pairing) {tokens tokens' : List Token}
    (h : List.Forall₂ π.paired (ended tokens) (ended tokens')) :
    AllAlike (parse tokens).statements (parse tokens').statements ∧
      List.Forall₂ π.Diagnostics (parse tokens).diagnostics (parse tokens').diagnostics := by
  have paired := π.readings h
  obtain ⟨same, after⟩ := (inStep_statement π depthLimit).statementsFrom []
    paired.cursor.rest.length_eq paired
  exact ⟨same, after.reported⟩

/-- The tokens at one place of two lists that say the same. -/
def Pairing.byPlace {tokens tokens' : List Token}
    (same : tokens.map Token.lexeme = tokens'.map Token.lexeme) : Pairing where
  paired t t' := ∃ place : Nat, tokens[place]? = some t ∧ tokens'[place]? = some t'
  lexeme := by
    rintro t t' ⟨place, left, right⟩
    have here : (tokens.map Token.lexeme)[place]? = (tokens'.map Token.lexeme)[place]? := by
      rw [same]
    rw [List.getElem?_map, List.getElem?_map, left, right] at here
    exact Option.some.inj here

theorem Pairing.forall₂_byPlace {tokens tokens' : List Token}
    (same : tokens.map Token.lexeme = tokens'.map Token.lexeme) :
    List.Forall₂ (byPlace same).paired tokens tokens' := by
  have length : tokens.length = tokens'.length := by
    rw [← tokens.length_map, same, List.length_map]
  refine List.forall₂_iff_get.mpr ⟨length, fun place left right => ⟨place, ?_, ?_⟩⟩
  · exact List.getElem?_eq_getElem left
  · exact List.getElem?_eq_getElem right

end SlangScript.Parse
