import SlangScript.Proofs.Grammar.Statement

/-!
Programs are read as the grammar derives them. What is derived within the depth is read with nothing
wrong, since the choices that reading makes are forced: no statement starts with an operator or with
a word that closes a block or stands around a condition. So the programs in which nothing is wrong
are exactly those that the grammar derives.
-/

namespace SlangScript.Grammar

open Parse

def starts : List Kind := .ident :: statementStarts

theorem Statement.starts {a b : List Token} {s : Node Int} {n : Nat} (h : Statement a s b n) :
    Starts starts a := by
  cases h with
  | assign same => exact ⟨_, _, rfl, by rw [Token.kind, same]; exact .head _⟩
  | declare same | print same | debugPrint same | breakOut same | continueOn same | ifThen same
  | ifElse same | whileDo same => exact ⟨_, _, rfl, by rw [same]; decide⟩

/-- The kinds of token that a block can start with, or that can follow it. -/
def follows : List Kind := starts ++ [.mark .eof, .mark .endWord, .mark .elseWord]

theorem Starts.mono {small large : List Kind} {a : List Token} (h : Starts small a)
    (subset : small ⊆ large) : Starts large a := by
  obtain ⟨t, rest, same, member⟩ := h
  exact ⟨t, rest, same, subset member⟩

theorem stops_of_follows {a : List Token} (h : Starts follows a) : Stops levels a := by
  have none : ∀ kind ∈ follows, ∀ level ∈ levels, level kind = none := by decide
  obtain ⟨t, rest, rfl, member⟩ := h
  exact stops_cons.mpr (none t.kind member)

/-- What can follow a statement can stand behind an expression without a closing parenthesis. -/
theorem exists_head_of_follows {a : List Token} (h : Starts follows a) :
    ∃ t rest, a = t :: rest ∧ t.kind ≠ .mark .rparen ∧ Stops levels (t :: rest) := by
  have apart : .mark .rparen ∉ follows := by decide
  have stops := stops_of_follows h
  obtain ⟨t, rest, rfl, member⟩ := h
  exact ⟨t, rest, rfl, fun same => apart (same ▸ member), stops⟩

theorem Block.starts {a b : List Token} {ss : List (Node Int)} {n : Nat} (h : Block a ss b n)
    (ends : Starts [.mark .eof, .mark .endWord, .mark .elseWord] b) : Starts follows a := by
  cases h with
  | nil => exact ends.mono (List.subset_append_right _ _)
  | cons first rest => exact first.starts.mono (List.subset_append_left _ _)

theorem Close.starts {a b : List Token} (h : Close a b) :
    Starts [.mark .eof, .mark .endWord] a := by
  cases h with
  | written same => exact ⟨_, _, rfl, by simp [same]⟩
  | missing same => exact ⟨_, _, rfl, by simp [same]⟩

theorem Close.ends {a b : List Token} (h : Close a b) :
    Starts [.mark .eof, .mark .endWord, .mark .elseWord] a := by
  apply h.starts.mono
  simp

theorem reads_optional {word : Mark} {kinds : List Kind} {a b : List Token}
    (h : Optional word a b) (inside : word ≠ .eof) (next : Starts kinds b)
    (other : .mark word ∉ kinds) : ∃ taken, Reads (liftM (takeIf (.mark word))) a taken b := by
  cases h with
  | present same => exact ⟨true, reads_takeIf_same same (by simpa using inside)⟩
  | absent =>
      obtain ⟨t, rest, rfl, member⟩ := next
      refine ⟨false, reads_takeIf_other ?_⟩
      intro same
      exact other (same ▸ member)

theorem reads_close {a b : List Token} (h : Close a b) :
    ∃ taken, Reads (liftM (takeIf (.mark .endWord))) a taken b := by
  cases h with
  | written same => exact ⟨true, reads_takeIf_same same (by decide)⟩
  | missing same => exact ⟨false, reads_takeIf_other (by simp [same])⟩

theorem stops_of_then {a b : List Token} (h : Optional .thenWord a b) (next : Starts follows b) :
    Stops levels a := by
  cases h with
  | absent => exact stops_of_follows next
  | present same =>
      have none : ∀ level ∈ levels, level (.mark .thenWord) = none := by decide
      exact stops_cons.mpr (same ▸ none)

theorem reads_condition {depth n : Nat} {a b : List Token} {e : Node Int}
    (h : Condition a e b n) (within : n ≤ depth) (next : Starts follows b) :
    Reads (condition (expression depth)) a e b := by
  cases h with
  | intro before derived after =>
      obtain ⟨_, first⟩ := reads_optional before (by decide) derived.starts (by decide)
      obtain ⟨_, last⟩ := reads_optional after (by decide) next (by decide)
      exact first.bind ((reads_expression derived within (stops_of_then after next)).bind
        (last.bind (.pure _ _)))

theorem reads_statementsFrom_nil {terminators : List Kind} {a : List Token}
    (ends : Starts (.mark .eof :: terminators) a) (statement : Parse (Node Int))
    (ahead : List Token) : Reads (liftM (statementsFrom statement terminators ahead)) a [] a := by
  intro r tokens
  refine ⟨r.cursor, ?_, tokens⟩
  obtain ⟨t, rest, rfl, member⟩ := ends
  have current := Cursor.current_of_tokens tokens
  rw [outcome_liftM, run_statementsFrom_end]
  simpa [endsAt, Token.isEof, current] using member

theorem reads_statementsFrom_cons {terminators : List Kind} {statement : Parse (Node Int)}
    {a b c : List Token} {node : Node Int} {nodes : List (Node Int)} {ahead : List Token}
    (first : Starts starts a) (apart : ∀ kind ∈ starts, kind ∉ terminators)
    (h : Reads statement a node b)
    (rest : Reads (liftM (statementsFrom statement terminators ahead)) b nodes c) (t : Token) :
    Reads (liftM (statementsFrom statement terminators (t :: ahead))) a (node :: nodes) c := by
  intro r tokens
  obtain ⟨c₁, given, left⟩ := h r tokens
  obtain ⟨c₂, given₂, left₂⟩ := rest { r with cursor := c₁ } left
  obtain ⟨u, _, rfl, member⟩ := first
  have current := Cursor.current_of_tokens tokens
  have ends : endsAt terminators r.cursor.current = false := by
    have notEof : .mark .eof ∉ starts := by decide
    have kind : u.kind ≠ .mark .eof := fun same => notEof (same ▸ member)
    simp [endsAt, Token.isEof, current, kind, apart u.kind member]
  refine ⟨c₂, ?_, left₂⟩
  rw [outcome_liftM_eq_ok] at given₂ ⊢
  rw [run_statementsFrom_ok ends given, given₂]

/-- Within a depth that allows its nesting, a statement is read if no operator comes next. -/
def ReadsStatement (a : List Token) (s : Node Int) (b : List Token) (n : Nat) : Prop :=
  ∀ depth, n ≤ depth → Stops levels b → Reads (statement depth) a s b

/-- Within a depth that allows its nesting, a block is read up to where it ends, in as many turns as
there are tokens ahead. -/
def ReadsBlock (a : List Token) (ss : List (Node Int)) (b : List Token) (n : Nat) : Prop :=
  ∀ depth, n ≤ depth → ∀ terminators ⊆ [.mark .endWord, .mark .elseWord],
    Starts (.mark .eof :: terminators) b → ∀ ahead : List Token, a.length ≤ ahead.length + 1 →
      Reads (liftM (statementsFrom (statement depth) terminators ahead)) a ss b

theorem ReadsBlock.statementsWith {a b : List Token} {ss : List (Node Int)} {n depth : Nat}
    (h : ReadsBlock a ss b n) (within : n ≤ depth) {terminators : List Kind}
    (subset : terminators ⊆ [.mark .endWord, .mark .elseWord])
    (ends : Starts (.mark .eof :: terminators) b) :
    Reads (liftM (statementsWith (statement depth) terminators)) a ss b := by
  intro r tokens
  refine h depth within terminators subset ends r.cursor.rest (Nat.le_of_eq ?_) r tokens
  rw [← tokens, r.cursor.length_tokens]

theorem ReadsBlock.block {a b : List Token} {ss : List (Node Int)} {n depth : Nat}
    (h : ReadsBlock a ss b n) (within : n + blockCost ≤ depth) {terminators : List Kind}
    (subset : terminators ⊆ [.mark .endWord, .mark .elseWord])
    (ends : Starts (.mark .eof :: terminators) b) : Reads (block depth terminators) a ss b := by
  rw [Parse.block, if_pos (Nat.le_of_add_left_le within)]
  exact h.statementsWith (Nat.le_sub_of_add_le within) subset ends

theorem reads_declare {t u v : Token} {name : String} {a b : List Token} {e : Node Int} {n : Nat}
    (start : t.kind = .mark .letWord) (ident : u.lexeme = .ident name)
    (assign : v.kind = .mark .assign) (derived : Expression levels a e b n) :
    ReadsStatement (t :: u :: v :: a) (.declare t.line name e) b (n + expressionCost) := by
  intro depth within stops
  rw [statement_eq]
  refine (reads_current t _).bind ?_
  rw [start]
  refine (reads_expect start (by decide)).bind ((reads_current u _).bind ?_)
  rw [ident]
  exact (reads_advance (by simp [Token.kind, ident, Lexeme.kind])).bind
    ((reads_expect assign (by decide)).bind
      ((reads_expression derived within stops).bind (.pure _ _)))

theorem reads_assign {u v : Token} {name : String} {a b : List Token} {e : Node Int} {n : Nat}
    (ident : u.lexeme = .ident name) (assign : v.kind = .mark .assign)
    (derived : Expression levels a e b n) :
    ReadsStatement (u :: v :: a) (.assign u.line name e) b (n + expressionCost) := by
  intro depth within stops
  have kind : u.kind = .ident := by rw [Token.kind, ident]; rfl
  rw [statement_eq]
  refine (reads_current u _).bind ?_
  rw [kind]
  refine (reads_current u _).bind ?_
  rw [ident]
  refine (reads_advance (by simp [kind])).bind ((reads_current v _).bind ?_)
  rw [if_neg (Decidable.not_not.mpr assign)]
  exact (reads_advance (by simp [assign])).bind
    ((reads_expression derived within stops).bind (.pure _ _))

theorem reads_print {t : Token} {a b c : List Token} {e : Node Int} {n : Nat}
    (start : t.kind = .mark .print) (word : Optional .highkey a b)
    (derived : Expression levels b e c n) :
    ReadsStatement (t :: a) (.print t.line e) c (n + expressionCost) := by
  intro depth within stops
  obtain ⟨_, highkey⟩ := reads_optional word (by decide) derived.starts (by decide)
  rw [statement_eq]
  refine (reads_current t _).bind ?_
  rw [start]
  exact (reads_expect start (by decide)).bind
    (highkey.bind ((reads_expression derived within stops).bind (.pure _ _)))

theorem reads_debugPrint {t : Token} {a b : List Token} {e : Node Int} {n : Nat}
    (start : t.kind = .mark .lowkey) (derived : Expression levels a e b n) :
    ReadsStatement (t :: a) (.debugPrint t.line e) b (n + expressionCost) := by
  intro depth within stops
  rw [statement_eq]
  refine (reads_current t _).bind ?_
  rw [start]
  exact (reads_expect start (by decide)).bind
    ((reads_expression derived within stops).bind (.pure _ _))

theorem reads_breakOut {t : Token} (start : t.kind = .mark .breakWord) (a : List Token) :
    ReadsStatement (t :: a) (.breakOut t.line) a 0 := by
  intro depth _ _
  rw [statement_eq]
  refine (reads_current t _).bind ?_
  rw [start]
  exact (reads_advance (by simp [start])).bind (.pure _ _)

theorem reads_continueOn {t : Token} (start : t.kind = .mark .continueWord) (a : List Token) :
    ReadsStatement (t :: a) (.continueOn t.line) a 0 := by
  intro depth _ _
  rw [statement_eq]
  refine (reads_current t _).bind ?_
  rw [start]
  exact (reads_advance (by simp [start])).bind (.pure _ _)

theorem reads_ifThen {t : Token} {a b c d : List Token} {e : Node Int} {yes : List (Node Int)}
    {m n : Nat} (start : t.kind = .mark .ifWord) (test : Condition a e b m)
    (body : Block b yes c n) (close : Close c d) (h : ReadsBlock b yes c n) :
    ReadsStatement (t :: a) (.ifThen t.line e yes) d (max m (n + blockCost)) := by
  intro depth within _
  have ends := close.ends
  have yes' : Reads (block depth [.mark .endWord, .mark .elseWord]) b yes c :=
    h.block (by omega) (List.Subset.refl _) ends
  obtain ⟨_, closed⟩ := reads_close close
  obtain ⟨u, rest, rfl, member⟩ := close.starts
  -- What closes the block is not the word for the other case.
  have notElse : u.kind ≠ .mark .elseWord := by
    intro same
    simp [same] at member
  rw [statement_eq]
  refine (reads_current t _).bind ?_
  rw [start]
  exact (reads_expect start (by decide)).bind
    ((reads_condition test (by omega) (body.starts ends)).bind
      (yes'.bind ((reads_takeIf_other notElse).bind (closed.bind (.pure _ _)))))

theorem reads_ifElse {t u : Token} {a b c d f : List Token} {e : Node Int}
    {yes no : List (Node Int)} {m n k : Nat} (start : t.kind = .mark .ifWord)
    (test : Condition a e b m) (body : Block b yes (u :: c) n) (isElse : u.kind = .mark .elseWord)
    (close : Close d f) (hy : ReadsBlock b yes (u :: c) n) (hn : ReadsBlock c no d k) :
    ReadsStatement (t :: a) (.ifElse t.line e yes no) f (max m (max n k + blockCost)) := by
  intro depth within _
  have ends : Starts [.mark .eof, .mark .endWord, .mark .elseWord] (u :: c) :=
    ⟨u, c, rfl, by simp [isElse]⟩
  have yes' : Reads (block depth [.mark .endWord, .mark .elseWord]) b yes (u :: c) :=
    hy.block (by omega) (List.Subset.refl _) ends
  have no' : Reads (block depth [.mark .endWord]) c no d :=
    hn.block (by omega) (by simp) close.starts
  obtain ⟨_, closed⟩ := reads_close close
  rw [statement_eq]
  refine (reads_current t _).bind ?_
  rw [start]
  exact (reads_expect start (by decide)).bind
    ((reads_condition test (by omega) (body.starts ends)).bind
      (yes'.bind ((reads_takeIf_same isElse (by decide)).bind
        (no'.bind (closed.bind (.pure _ _))))))

theorem reads_whileDo {t : Token} {a b c d : List Token} {e : Node Int} {body : List (Node Int)}
    {m n : Nat} (start : t.kind = .mark .whileWord) (test : Condition a e b m)
    (inner : Block b body c n) (close : Close c d) (h : ReadsBlock b body c n) :
    ReadsStatement (t :: a) (.whileDo t.line e body) d (max m (n + blockCost)) := by
  intro depth within _
  have ends := close.ends
  have body' : Reads (block depth [.mark .endWord]) b body c :=
    h.block (by omega) (by simp) close.starts
  obtain ⟨_, closed⟩ := reads_close close
  rw [statement_eq]
  refine (reads_current t _).bind ?_
  rw [start]
  exact (reads_expect start (by decide)).bind
    ((reads_condition test (by omega) (inner.starts ends)).bind
      (body'.bind (closed.bind (.pure _ _))))

theorem reads_cons {a b c : List Token} {s : Node Int} {ss : List (Node Int)} {m n : Nat}
    (first : Statement a s b m) (rest : Block b ss c n) (hs : ReadsStatement a s b m)
    (hb : ReadsBlock b ss c n) : ReadsBlock a (s :: ss) c (max m n) := by
  intro depth within terminators subset ends ahead enough
  have shorter := first.passes.2
  have follow : Starts follows b := by
    refine rest.starts (ends.mono ?_)
    intro kind member
    rcases List.mem_cons.mp member with rfl | member
    · exact .head _
    · exact .tail _ (subset member)
  have apart : ∀ kind ∈ starts, kind ∉ terminators := by
    have none : ∀ kind ∈ starts, kind ∉ [.mark .endWord, .mark .elseWord] := by decide
    exact fun kind member member' => none kind member (subset member')
  cases ahead with
  | nil =>
      obtain ⟨u, rest, rfl, -⟩ := follow
      simp only [List.length_cons, List.length_nil] at enough shorter
      omega
  | cons t ahead =>
      rw [List.length_cons] at enough
      exact reads_statementsFrom_cons first.starts apart
        (hs depth (by omega) (stops_of_follows follow))
        (hb depth (by omega) terminators subset ends ahead (by omega)) t

mutual

theorem Statement.reads {a b : List Token} {s : Node Int} {n : Nat} (h : Statement a s b n) :
    ReadsStatement a s b n := by
  cases h with
  | declare start ident assign derived => exact reads_declare start ident assign derived
  | assign ident assign derived => exact reads_assign ident assign derived
  | print start word derived => exact reads_print start word derived
  | debugPrint start derived => exact reads_debugPrint start derived
  | breakOut start => exact reads_breakOut start _
  | continueOn start => exact reads_continueOn start _
  | ifThen start test body close => exact reads_ifThen start test body close body.reads
  | ifElse start test yes isElse no close =>
      exact reads_ifElse start test yes isElse close yes.reads no.reads
  | whileDo start test body close => exact reads_whileDo start test body close body.reads

theorem Block.reads {a b : List Token} {ss : List (Node Int)} {n : Nat} (h : Block a ss b n) :
    ReadsBlock a ss b n := by
  cases h with
  | nil => exact fun _ _ _ _ ends ahead _ => reads_statementsFrom_nil ends _ ahead
  | cons first rest => exact reads_cons first rest first.reads rest.reads

end

theorem Block.suffix {a b : List Token} {ss : List (Node Int)} {n : Nat} (h : Block a ss b n) :
    b <:+ a := by
  induction ss generalizing a n with
  | nil =>
      cases h with
      | nil => exact List.suffix_refl b
  | cons s ss ih =>
      cases h with
      | cons first rest => exact (ih rest).trans first.passes.1

theorem ofTokens_tokens {tokens body : List Token} {last : Token} (same : tokens = body ++ [last])
    (ends : last.isEof = true) : (Cursor.ofTokens tokens).tokens = tokens := by
  rw [Cursor.tokens_ofTokens, same, ended_of_isEof ends]

theorem EndsOnce.suffix {tokens rest : List Token} {t : Token} (once : EndsOnce tokens)
    (suffix : t :: rest <:+ tokens) (ends : t.isEof = true) : rest = [] := by
  obtain ⟨body, last, rfl, _, inside⟩ := once
  obtain ⟨before, same⟩ := suffix
  rcases List.eq_nil_or_concat rest with rfl | ⟨middle, last', rfl⟩
  · rfl
  -- Otherwise the token would stand before the last one, where none ends the text.
  · have whole : before ++ t :: middle ++ [last'] = body ++ [last] := by simpa using same
    have member : t ∈ body := by
      rw [← (List.append_inj' whole rfl).1]
      simp
    rw [inside t member] at ends
    cases ends

theorem parse_eq (tokens : List Token) : parse tokens =
    ⟨(program.run (.ofTokens tokens)).1, (program.run (.ofTokens tokens)).2.reported.toList⟩ := rfl

theorem parse_of_outcome {tokens : List Token} {S : List (Node Int)} {r : Reading}
    (h : outcome (liftM program : Parse (List (Node Int))) (.ofTokens tokens) = (.ok S, r)) :
    parse tokens = ⟨S, r.reported.toList⟩ := by
  rw [parse_eq, outcome_liftM_eq_ok.mp h]

/-- Nothing is wrong with a program that the grammar derives within the depth limit, and what is read
is the tree of its derivation. -/
theorem parse_of_program {tokens : List Token} {S : List (Node Int)} {n : Nat}
    (once : EndsOnce tokens) (within : n ≤ depthLimit) (h : Program tokens S n) :
    parse tokens = ⟨S, []⟩ := by
  obtain ⟨body, last, same, ends, _⟩ := once
  have whole : (Reading.ofTokens tokens).cursor.tokens = tokens := ofTokens_tokens same ends
  obtain ⟨last', ends', derived⟩ := h
  have stop : Starts [.mark .eof] [last'] := ⟨last', [], rfl, by simpa [Token.isEof] using ends'⟩
  obtain ⟨c, given, _⟩ := derived.reads.statementsWith within (by simp) stop
    (.ofTokens tokens) whole
  exact parse_of_outcome given

theorem program_of_parse {tokens : List Token} {S : List (Node Int)} (once : EndsOnce tokens)
    (h : parse tokens = ⟨S, []⟩) : ∃ n ≤ depthLimit, Program tokens S n := by
  obtain ⟨body, last, same, ends, _⟩ := id once
  have whole : (Reading.ofTokens tokens).cursor.tokens = tokens := ofTokens_tokens same ends
  rw [parse_eq, Parsed.mk.injEq] at h
  obtain ⟨rfl, quiet⟩ := h
  obtain ⟨⟨n, within, derived⟩, t, rest, left, member⟩ :=
    (yields_statementsWith (yields_statement depthLimit) []).gives
      (outcome_liftM program (.ofTokens tokens)) (by
        rw [← Array.length_toList, quiet]
        rfl)
  have isEof : t.isEof = true := by simpa [Token.isEof] using member
  rw [whole, left] at derived
  rw [once.suffix derived.suffix isEof] at derived
  exact ⟨n, within, t, isEof, derived⟩

/-- A program in which nothing is wrong is exactly one that the grammar derives within the depth
limit, and what is read is the tree of its derivation. -/
theorem parse_eq_iff_program {tokens : List Token} (once : EndsOnce tokens) (S : List (Node Int)) :
    parse tokens = ⟨S, []⟩ ↔ ∃ n ≤ depthLimit, Program tokens S n :=
  ⟨program_of_parse once, fun ⟨_, within, derived⟩ => parse_of_program once within derived⟩

/-- A program whose words that close a block are all left out, so that what is to be done otherwise
belongs to the inner condition. -/
def danglingElse : List Token :=
  [⟨.mark .ifWord, 1, 1⟩, ⟨.ident "x", 1, 5⟩, ⟨.mark .ifWord, 1, 7⟩, ⟨.ident "y", 1, 11⟩,
    ⟨.mark .thenWord, 1, 13⟩, ⟨.mark .elseWord, 2, 1⟩, ⟨.mark .print, 2, 7⟩,
    ⟨.mark .lparen, 2, 12⟩, ⟨.ident "z", 2, 13⟩, ⟨.mark .eof, 2, 14⟩]

theorem endsOnce_danglingElse : EndsOnce danglingElse :=
  ⟨danglingElse.dropLast, ⟨.mark .eof, 2, 14⟩, rfl, rfl, by decide⟩

theorem program_danglingElse : EndsOnce danglingElse ∧
    ∃ n ≤ depthLimit, Program danglingElse
      [.ifThen 1 (.var 1 "x") [.ifElse 1 (.var 1 "y") [] [.print 2 (.var 2 "z")]]] n :=
  ⟨endsOnce_danglingElse, (parse_eq_iff_program endsOnce_danglingElse _).mp rfl⟩

end SlangScript.Grammar
