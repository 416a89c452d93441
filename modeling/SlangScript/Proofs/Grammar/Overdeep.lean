import SlangScript.Proofs.Grammar.Gap

/-!
A statement that nests too deeply costs nothing but itself. Reading runs out of depth somewhere in
the statement, and gives it up there; none of the tokens that are left of it could be the start of
another statement or the end of a block, so reading goes on behind the last of them, and the
statement is reported at its first token.
-/

namespace SlangScript.Grammar

open Parse

variable {α β : Type}

/-- From the tokens `a` on the reader runs out of depth before it comes to `b`, and reports
nothing. -/
def Drowns (p : Parse α) (a b : List Token) : Prop :=
  ∀ r : Reading, r.cursor.tokens = a → ∃ c : Cursor,
    outcome p r = (.error .tooDeep, { r with cursor := c }) ∧ c.tokens <:+ a ∧ Passes c.tokens b

theorem drowns_tooDeep {a b : List Token} (ahead : Passes a b) : Drowns (tooDeep : Parse α) a b := by
  rintro r rfl
  exact ⟨r.cursor, rfl, List.suffix_refl _, ahead⟩

theorem Drowns.bind {p : Parse α} {a b : List Token} (h : Drowns p a b) (f : α → Parse β) :
    Drowns (p >>= f) a b := by
  intro r tokens
  obtain ⟨c, given, left⟩ := h r tokens
  exact ⟨c, outcome_bind_error given f, left⟩

theorem drowns_bind {p : Parse α} {f : α → Parse β} {a b c : List Token} {x : α}
    (h : Reads p a x b) (onward : b <:+ a) (hf : Drowns (f x) b c) : Drowns (p >>= f) a c := by
  intro r tokens
  obtain ⟨c₁, first, left⟩ := h r tokens
  obtain ⟨c₂, given, inside, ahead⟩ := hf { r with cursor := c₁ } left
  exact ⟨c₂, (outcome_bind_ok first f).trans given, inside.trans onward, ahead⟩

theorem drowns_levels {unary : Parse (Node Int)} {a b : List Token} (h : Drowns unary a b)
    (ls : List Level) : Drowns (ls.foldr chain unary) a b := by
  induction ls with
  | nil => exact h
  | cons level ls ih => exact ih.bind _

theorem drowns_expression {depth : Nat} {a b : List Token} (ahead : Passes a b)
    (h : expressionCost ≤ depth → Drowns (unary (depth - expressionCost)) a b) :
    Drowns (expression depth) a b := by
  by_cases enough : expressionCost ≤ depth
  · rw [expression_eq enough]
    exact drowns_levels (h enough) levels
  · rw [expression, if_neg enough]
    exact drowns_tooDeep ahead

/-! ## Below parentheses and below operators -/

theorem Passes.before {a b : List Token} (h : Passes a b) (front : List Token) :
    Passes (front ++ a) b :=
  h.after (List.suffix_append front a)

/-- Below more parentheses than the depth has room for an expression is not read. -/
theorem drowns_parentheses {opens a b : List Token} (paren : ∀ u ∈ opens, u.kind = .mark .lparen)
    (ahead : Passes a b) {depth : Nat} (short : depth < expressionCost * opens.length) :
    Drowns (expression depth) (opens ++ a) b := by
  induction opens generalizing depth with
  | nil => exact absurd short (Nat.not_lt_zero _)
  | cons u opens ih =>
      obtain ⟨here, behind⟩ := List.forall_mem_cons.mp paren
      refine drowns_expression (ahead.before _) fun enough => ?_
      rw [List.length_cons, Nat.mul_succ] at short
      rw [unary_eq, unaryWith]
      refine drowns_bind (reads_current u _) (List.suffix_refl _) ?_
      rw [here]
      refine drowns_bind (reads_current u _) (List.suffix_refl _) ?_
      rw [Token.lexeme_of_kind here]
      exact drowns_bind (reads_advance (by simp [here])) (List.suffix_cons u _)
        ((ih behind (by omega)).bind _)

/-- Below more operators than the depth has room for an operand is not read. -/
theorem drowns_operators {signs a b : List Token} (sign : ∀ u ∈ signs, (unaryOp? u.kind).isSome)
    (ahead : Passes a b) {depth : Nat} (short : depth < signs.length) :
    Drowns (unary depth) (signs ++ a) b := by
  induction signs generalizing depth with
  | nil => exact absurd short (Nat.not_lt_zero _)
  | cons u signs ih =>
      obtain ⟨here, behind⟩ := List.forall_mem_cons.mp sign
      obtain ⟨op, same⟩ := Option.isSome_iff_exists.mp here
      have inside : u.kind ≠ .mark .eof := by
        rcases kind_of_unaryOp same with kind | kind <;> simp [kind]
      rw [unary_eq, unaryWith]
      refine drowns_bind (reads_current u _) (List.suffix_refl _) ?_
      rw [same]
      refine drowns_bind (reads_advance inside) (List.suffix_cons u _) (Drowns.bind ?_ _)
      cases depth with
      | zero => exact drowns_tooDeep (ahead.before _)
      | succ depth => exact ih behind (Nat.lt_of_succ_lt_succ short)

/-- A statement that prints what nests too deeply: an expression in 500 parentheses or more, or below
4000 operators or more. -/
inductive Overdeep : Token → List Token → Prop
  | parentheses {t opens a closes e n} : t.kind = .mark .print →
      (∀ u ∈ opens, u.kind = .mark .lparen) → 500 ≤ opens.length → Spells levels a e n →
      (∀ u ∈ closes, u.kind = .mark .rparen) → closes.length = opens.length →
      Overdeep t (opens ++ (a ++ closes))
  | operators {t signs a e n} : t.kind = .mark .print →
      (∀ u ∈ signs, u.kind = .mark .not ∨ u.kind = .mark .minus) → 4000 ≤ signs.length →
      Spells levels a e n → Overdeep t (signs ++ a)

theorem Spells.passes {ls : List Level} {a : List Token} {e : Node Int} {n : Nat}
    (h : Spells ls a e n) (b : List Token) : Passes (a ++ b) b := (h.derived b).passes

theorem Overdeep.start {t : Token} {x : List Token} (h : Overdeep t x) : t.kind = .mark .print := by
  cases h with
  | parentheses start | operators start => exact start

/-- The expression does not start with the word that asks for a loud voice. -/
theorem Overdeep.exists_cons {t : Token} {x : List Token} (h : Overdeep t x) :
    ∃ u rest, x = u :: rest ∧ u.kind ≠ .mark .highkey := by
  cases h with
  | @parentheses opens _ _ _ _ _ paren many =>
      obtain ⟨u, rest, rfl⟩ := List.exists_cons_of_length_pos (Nat.zero_lt_of_lt many)
      exact ⟨u, _, rfl, by simp [paren u (.head _)]⟩
  | @operators signs _ _ _ _ sign many =>
      obtain ⟨u, rest, rfl⟩ := List.exists_cons_of_length_pos (Nat.zero_lt_of_lt many)
      exact ⟨u, _, rfl, by rcases sign u (.head _) with kind | kind <;> simp [kind]⟩

theorem Overdeep.drowns_value {t : Token} {x : List Token} (h : Overdeep t x) {depth : Nat}
    (limited : depth ≤ depthLimit) (b : List Token) : Drowns (expression depth) (x ++ b) b := by
  unfold depthLimit at limited
  cases h with
  | @parentheses opens a closes _ _ _ paren many inner _ _ =>
      rw [List.append_assoc, List.append_assoc]
      have ahead := (inner.passes (closes ++ b)).trans (List.suffix_append closes b)
      exact drowns_parentheses paren ahead (by unfold expressionCost; omega)
  | @operators signs a _ _ _ sign many inner =>
      rw [List.append_assoc]
      have unary : ∀ u ∈ signs, (unaryOp? u.kind).isSome := by
        intro u member
        rcases sign u member with kind | kind <;> rw [kind] <;> rfl
      exact drowns_expression ((inner.passes b).before _) fun _ =>
        drowns_operators unary (inner.passes b) (by omega)

theorem Overdeep.drowns {t : Token} {x : List Token} (h : Overdeep t x) {depth : Nat}
    (limited : depth ≤ depthLimit) (b : List Token) :
    Drowns (statement depth) (t :: (x ++ b)) b := by
  have value := h.drowns_value limited b
  have start := h.start
  obtain ⟨u, rest, rfl, quiet⟩ := h.exists_cons
  rw [statement_eq, statementWith]
  refine drowns_bind (reads_current t _) (List.suffix_refl _) ?_
  rw [start]
  exact drowns_bind (reads_expect start (by decide)) (List.suffix_cons t _)
    (drowns_bind (reads_takeIf_other quiet) (List.suffix_refl _) (value.bind _))

/-! ## Giving up -/

/-- The kinds of token at which a statement that is given up can end. -/
def boundaries : List Kind := statementStarts ++ [.mark .eof, .mark .endWord, .mark .elseWord]

theorem Spells.inside {ls : List Level} {ts : List Token} {e : Node Int} {n : Nat}
    (h : Spells ls ts e n) (suffix : ls <:+ levels) : ∀ t ∈ ts, t.kind ∉ boundaries := by
  have literals : ∀ kind ∈ [Kind.number, .text, .flag, .ident, .mark .lparen, .mark .rparen,
      .mark .not, .mark .minus], kind ∉ boundaries := by decide
  have operators : ∀ level ∈ levels, ∀ kind ∈ boundaries, level kind = none := by decide
  induction h with
  | number same | text same | flag same | var same =>
      exact List.forall_mem_singleton.mpr (literals _ (by simp [Token.kind, same, Lexeme.kind]))
  | closed opening _ closing ih =>
      refine List.forall_mem_cons.mpr ⟨literals _ (by simp [opening]), ?_⟩
      exact List.forall_mem_append.mpr ⟨ih (List.suffix_refl levels),
        List.forall_mem_singleton.mpr (literals _ (by simp [closing]))⟩
  | unary op _ ih =>
      refine List.forall_mem_cons.mpr ⟨literals _ ?_, ih suffix⟩
      rcases kind_of_unaryOp op with kind | kind <;> simp [kind]
  | tighter _ ih => exact ih ((List.suffix_cons _ _).trans suffix)
  | @binary level ls t op a b l r m n _ next _ ihl ihr =>
      refine List.forall_mem_append.mpr ⟨ihl suffix, List.forall_mem_cons.mpr ⟨fun member => ?_,
        ihr ((List.suffix_cons _ _).trans suffix)⟩⟩
      rw [operators level (suffix.subset (.head ls)) t.kind member] at next
      cases next

theorem Overdeep.inside {t : Token} {x : List Token} (h : Overdeep t x) :
    ∀ u ∈ x, u.kind ∉ boundaries := by
  have signs : ∀ kind ∈ [Kind.mark .lparen, .mark .rparen, .mark .not, .mark .minus],
      kind ∉ boundaries := by decide
  cases h with
  | parentheses _ paren _ inner close _ =>
      refine List.forall_mem_append.mpr ⟨fun u member => signs _ (by simp [paren u member]), ?_⟩
      exact List.forall_mem_append.mpr ⟨inner.inside (List.suffix_refl levels),
        fun u member => signs _ (by simp [close u member])⟩
  | operators _ sign _ inner =>
      refine List.forall_mem_append.mpr ⟨fun u member => signs _ ?_,
        inner.inside (List.suffix_refl levels)⟩
      rcases sign u member with kind | kind <;> simp [kind]

/-- The cursor moves past tokens of other kinds to the first one at which to stop. -/
theorem tokens_skipUntil {stops : Kind → Bool} {c : Cursor} {u : Token} {y a : List Token}
    (tokens : c.tokens = y ++ u :: a) (inside : ∀ t ∈ y, stops t.kind = false)
    (stop : stops u.kind = true) : (c.skipUntil stops).tokens = u :: a := by
  have passed : ∀ t ∈ y, (!stops t.kind) = true := fun t member => by rw [inside t member]; rfl
  have here : ¬(!stops u.kind) = true := by rw [stop]; exact Bool.false_ne_true
  have kept : (c.skipUntil stops).last = c.last := rfl
  rw [Cursor.tokens, c.skipUntil_rest, kept]
  -- The last token is none of those ahead, so where nothing else is left it has to be split off.
  rcases List.eq_nil_or_concat a with rfl | ⟨middle, final, rfl⟩
  · obtain ⟨front, same⟩ := List.append_inj' tokens rfl
    have none : y.dropWhile (fun t : Token => !stops t.kind) = [] := by
      rw [← List.append_nil y, List.dropWhile_append_of_pos passed, List.dropWhile_nil]
    have last : [c.last] = [u] := same
    rw [front, none, last]
    rfl
  · rw [List.concat_eq_append, ← List.cons_append, ← List.append_assoc] at tokens
    obtain ⟨front, same⟩ := List.append_inj' tokens rfl
    have stay : (u :: middle).dropWhile (fun t : Token => !stops t.kind) = u :: middle :=
      List.dropWhile_cons_of_neg here
    have last : [c.last] = [final] := same
    rw [front, List.dropWhile_append_of_pos passed, stay, last, List.concat_eq_append]
    rfl

/-- Whether a statement that is given up ends at a token of a kind. -/
def givesUpAt (terminators : List Kind) (kind : Kind) : Bool :=
  statementStarts.contains kind || terminators.contains kind || kind == .mark .eof

theorem givesUpAt_of_mem {terminators : List Kind} {kind : Kind}
    (h : kind ∈ statementStarts ++ .mark .eof :: terminators) :
    givesUpAt terminators kind = true := by
  rcases List.mem_append.mp h with start | ends
  · simp [givesUpAt, start]
  · rcases List.mem_cons.mp ends with rfl | terminator
    · simp [givesUpAt]
    · simp [givesUpAt, terminator]

theorem not_givesUpAt {terminators : List Kind} {kind : Kind}
    (subset : terminators ⊆ [.mark .endWord, .mark .elseWord]) (h : kind ∉ boundaries) :
    givesUpAt terminators kind = false := by
  have part : statementStarts ++ .mark .eof :: terminators ⊆ boundaries :=
    List.append_subset.mpr ⟨List.subset_append_left _ _,
      List.Subset.trans (List.cons_subset_cons _ subset) (List.subset_append_right _ _)⟩
  rw [Bool.eq_false_iff]
  intro found
  simp only [givesUpAt, Bool.or_eq_true, List.contains_eq_mem, decide_eq_true_eq,
    beq_iff_eq] at found
  refine h (part (List.mem_append.mpr ?_))
  rcases found with (start | terminator) | rfl
  · exact .inl start
  · exact .inr (.tail _ terminator)
  · exact .inr (.head _)

/-- A statement that nests too deeply is reported at its first token and given up, and the turn ends
behind its last one. -/
theorem Overdeep.turn {terminators : List Kind} {t u : Token} {x a : List Token} {r : Reading}
    (h : Overdeep t x) (tokens : r.cursor.tokens = t :: (x ++ u :: a))
    (subset : terminators ⊆ [.mark .endWord, .mark .elseWord])
    (stop : u.kind ∈ statementStarts ++ .mark .eof :: terminators) {depth : Nat}
    (limited : depth ≤ depthLimit) :
    ∃ c : Cursor, Parse.turn (statement depth) terminators r =
      (none, { cursor := c, reported := r.reported.push ⟨.tooDeep, t⟩ }) ∧ c.tokens = u :: a := by
  obtain ⟨c, given, onward, ⟨y, left⟩, ahead⟩ := h.drowns limited (u :: a) r tokens
  have here := Cursor.current_of_tokens tokens
  have part : y <:+ t :: x := by
    rw [← left, ← List.cons_append] at onward
    exact ((List.suffix_append_inj_of_length_eq rfl).mp onward).1
  obtain ⟨w, y, rfl⟩ : ∃ w y', y = w :: y' := by
    cases y with
    | nil => exact absurd ahead (by simp [← left])
    | cons w y => exact ⟨w, y, rfl⟩
  -- The first token that is left is passed in any case; the others are tokens of the expression.
  have inside : w.kind ≠ .mark .eof := by
    rcases List.mem_cons.mp (part.subset (.head y)) with rfl | member
    · simp [h.start]
    · intro same
      exact h.inside w member (by rw [same]; decide)
  have behind : y <:+ x := by
    rcases List.suffix_cons_iff.mp part with same | shorter
    · exact (List.cons.inj same).2 ▸ List.suffix_refl y
    · exact (List.suffix_cons w y).trans shorter
  refine ⟨c.advance.skipUntil (givesUpAt terminators), ?_, ?_⟩
  · rw [Parse.turn, given]
    simp only [recover, here]
    rfl
  · exact tokens_skipUntil (Cursor.advance_tokens left.symm inside)
      (fun v member => not_givesUpAt subset (h.inside v (behind.subset member)))
      (givesUpAt_of_mem stop)

/-- A statement that nests too deeply costs one report, in front of anything but an assignment: a name
would be taken for one of its own. -/
theorem Overdeep.costs {terminators : List Kind} {t : Token} {x a : List Token} (h : Overdeep t x)
    (keyword : ∀ u ∈ a.head?, u.kind ≠ .ident) :
    Costs terminators (t :: x) a ⟨.tooDeep, t⟩ where
  stops := by
    have none : ∀ level ∈ levels, level (.mark .print) = none := by decide
    exact stops_cons.mpr (h.start ▸ none)
  notes subset first {depth ss b} limited rest := by
    obtain ⟨u, a, rfl, member⟩ := first
    have stop : u.kind ∈ statementStarts ++ .mark .eof :: terminators :=
      (List.mem_cons.mp member).resolve_left (keyword u rfl)
    intro r tokens
    have start : Starts starts (t :: (x ++ u :: a)) := ⟨t, _, rfl, by rw [h.start]; decide⟩
    have going := going_of_starts start subset tokens
    obtain ⟨c₁, turned, left⟩ := h.turn tokens subset stop limited
    obtain ⟨c₂, given, left₂⟩ :=
      rest { cursor := c₁, reported := r.reported.push ⟨.tooDeep, t⟩ } left
    refine ⟨c₂, ?_, left₂⟩
    rw [outcome_liftM_eq_ok] at given ⊢
    rw [run_list_turn going, turned, given]
    rfl

/-- A statement that nests too deeply, anywhere in a program that is spelled out but in front of an
assignment, is reported at its first token, and the program is read as it is without: what stands
before it and behind it in its own list, and the blocks around that. -/
theorem parse_overdeep {terminators : List Kind} {before after x : List Token} {P : List (Node Int)}
    {n : Nat} {t last : Token} (gap : Gap terminators [] before after P n) (within : n ≤ depthLimit)
    (keyword : ∀ u ∈ after.head?, u.kind ≠ .ident) (overdeep : Overdeep t x)
    (ends : last.isEof = true) :
    parse (before ++ after ++ [last]) = ⟨P, []⟩ ∧
      ∃ d, parse (before ++ (t :: x) ++ after ++ [last]) = ⟨P, [d]⟩ ∧
        d.token = t ∧ d.problem.message = "Expression nested too deeply" := by
  have isEof : last.kind = .mark .eof := Token.kind_of_isEof ends
  have stop : Starts [.mark .eof] [last] := ⟨last, [], rfl, by simp [isEof]⟩
  have whole : (Reading.ofTokens (before ++ after ++ [last])).cursor.tokens =
      before ++ after ++ [last] := ofTokens_tokens rfl ends
  have whole' : (Reading.ofTokens (before ++ (t :: x) ++ after ++ [last])).cursor.tokens =
      before ++ ((t :: x) ++ (after ++ [last])) := by
    rw [← List.append_assoc, ← List.append_assoc]
    exact ofTokens_tokens rfl ends
  have next : ∀ u ∈ (after ++ [last]).head?, u.kind ≠ .ident := by
    cases after with
    | nil => simp [isEof]
    | cons u after => exact keyword
  constructor
  · obtain ⟨c, given, _⟩ := reads_spelled_block gap.spells within (by simp) stop _ whole
    exact parse_of_outcome given
  · obtain ⟨c, given, _⟩ :=
      gap.reports (overdeep.costs next) (by simp) within (Nat.le_refl _) stop _ whole'
    exact ⟨⟨.tooDeep, t⟩, parse_of_outcome given, rfl, rfl⟩

/-- Between two statements of the block of a loop, in 500 parentheses. -/
theorem parse_overdeep_loop :
    ∃ d, parse ([⟨.mark .whileWord, 1, 1⟩, ⟨.mark .cond, 1, 9⟩, ⟨.flag true, 1, 17⟩,
        ⟨.mark .thenWord, 1, 22⟩, ⟨.mark .print, 2, 1⟩, ⟨.ident "x", 2, 7⟩] ++
        (⟨.mark .print, 3, 1⟩ :: (List.replicate 500 ⟨.mark .lparen, 3, 7⟩ ++
          ([⟨.number 1, 3, 8⟩] ++ List.replicate 500 ⟨.mark .rparen, 3, 9⟩))) ++
        [⟨.mark .print, 4, 1⟩, ⟨.ident "y", 4, 7⟩, ⟨.mark .endWord, 5, 1⟩] ++
        [⟨.mark .eof, 5, 4⟩]) =
      ⟨[.whileDo 1 (.flag 1 true) [.print 2 (.var 2 "x"), .print 4 (.var 4 "y")]], [d]⟩ ∧
      d.token = ⟨.mark .print, 3, 1⟩ ∧ d.problem.message = "Expression nested too deeply" := by
  have spells {t : Token} {e : Node Int} (leaf : Spells [] [t] e 0) : Spells levels [t] e 0 :=
    .tighter (.tighter (.tighter (.tighter (.tighter leaf))))
  have print {t u : Token} {e : Node Int} (start : t.kind = .mark .print)
      (leaf : Spells [] [u] e 0) : SpellsStatement [t, u] (.print t.line e) (0 + expressionCost) :=
    .print start (fun u (member : u ∈ none) => nomatch member) (spells leaf)
  have loop : GapWithin [.mark .endWord] [⟨.mark .whileWord, 1, 1⟩, ⟨.mark .cond, 1, 9⟩,
      ⟨.flag true, 1, 17⟩, ⟨.mark .thenWord, 1, 22⟩, ⟨.mark .print, 2, 1⟩, ⟨.ident "x", 2, 7⟩]
      [⟨.mark .print, 4, 1⟩, ⟨.ident "y", 4, 7⟩, ⟨.mark .endWord, 5, 1⟩]
      (.whileDo 1 (.flag 1 true) [.print 2 (.var 2 "x"), .print 4 (.var 4 "y")]) 16 :=
    .whileDo (a := [_]) rfl rfl (spells (.flag rfl)) rfl
      (.later (print rfl (.var rfl)) (.here (.cons (print rfl (.var rfl)) .nil))) rfl
  exact (parse_overdeep (.within loop .nil) (by decide) (by decide)
    (.parentheses rfl (fun u member => List.eq_of_mem_replicate member ▸ rfl) (Nat.le_of_eq List.length_replicate.symm)
      (spells (.number rfl)) (fun u member => List.eq_of_mem_replicate member ▸ rfl)
      (List.length_replicate.trans List.length_replicate.symm))
    rfl).2

end SlangScript.Grammar
