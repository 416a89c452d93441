import SlangScript.Proofs.Grammar.Program
import SlangScript.Proofs.Grammar.Progress
import SlangScript.Proofs.Grammar.Spelled

/-!
Places between two statements. In a program that is spelled out a statement ends at its last token,
so what stands between two statements stands where a statement is to be read. If a list of statements
can be read on behind it at the cost of one report, then the program is read as it is without, with
that report and no other, however deep in the program the place is.
-/

namespace SlangScript.Grammar

open Parse

variable {α β : Type}

mutual

/-- A place between two statements of a list, or at one of its ends, in a program that is spelled
out: `Gap terminators own before after ss n` has the tokens before and behind the place. The list
`ss` ends at `own`, and the list that has the place ends at `terminators`. -/
inductive Gap (terminators : List Kind) :
    List Kind → List Token → List Token → List (Node Int) → Nat → Prop
  | here {b ss n} : SpellsBlock b ss n → Gap terminators terminators [] b ss n
  | later {own a before after s ss m n} : SpellsStatement a s m →
      Gap terminators own before after ss n →
      Gap terminators own (a ++ before) after (s :: ss) (max m n)
  | within {own before after b s ss m n} : GapWithin terminators before after s m →
      SpellsBlock b ss n → Gap terminators own before (after ++ b) (s :: ss) (max m n)

/-- Such a place in a block of a statement. -/
inductive GapWithin (terminators : List Kind) :
    List Token → List Token → Node Int → Nat → Prop
  | ifThen {t c u v a before after e yes m n} : t.kind = .mark .ifWord → c.kind = .mark .cond →
      Spells levels a e m → u.kind = .mark .thenWord →
      Gap terminators [.mark .endWord, .mark .elseWord] before after yes n →
      v.kind = .mark .endWord →
      GapWithin terminators (t :: c :: (a ++ u :: before)) (after ++ [v]) (.ifThen t.line e yes)
        (max (m + expressionCost) (n + blockCost))
  | ifYes {t c u w v a d before after e yes no m n k} : t.kind = .mark .ifWord →
      c.kind = .mark .cond → Spells levels a e m → u.kind = .mark .thenWord →
      Gap terminators [.mark .endWord, .mark .elseWord] before after yes n →
      w.kind = .mark .elseWord → SpellsBlock d no k → v.kind = .mark .endWord →
      GapWithin terminators (t :: c :: (a ++ u :: before)) (after ++ w :: (d ++ [v]))
        (.ifElse t.line e yes no) (max (m + expressionCost) (max n k + blockCost))
  | ifNo {t c u w v a b before after e yes no m n k} : t.kind = .mark .ifWord →
      c.kind = .mark .cond → Spells levels a e m → u.kind = .mark .thenWord →
      SpellsBlock b yes n → w.kind = .mark .elseWord →
      Gap terminators [.mark .endWord] before after no k → v.kind = .mark .endWord →
      GapWithin terminators (t :: c :: (a ++ u :: (b ++ w :: before))) (after ++ [v])
        (.ifElse t.line e yes no) (max (m + expressionCost) (max n k + blockCost))
  | whileDo {t c u v a before after e body m n} : t.kind = .mark .whileWord →
      c.kind = .mark .cond → Spells levels a e m → u.kind = .mark .thenWord →
      Gap terminators [.mark .endWord] before after body n → v.kind = .mark .endWord →
      GapWithin terminators (t :: c :: (a ++ u :: before)) (after ++ [v]) (.whileDo t.line e body)
        (max (m + expressionCost) (n + blockCost))

end

mutual

/-- Without the gap the program is spelled out. -/
theorem Gap.spells {terminators own : List Kind} {before after : List Token} {ss : List (Node Int)}
    {n : Nat} (h : Gap terminators own before after ss n) : SpellsBlock (before ++ after) ss n := by
  cases h with
  | here block => exact block
  | later first gap =>
      rw [List.append_assoc]
      exact .cons first gap.spells
  | within gap rest =>
      rw [← List.append_assoc]
      exact .cons gap.spells rest

theorem GapWithin.spells {terminators : List Kind} {before after : List Token} {s : Node Int}
    {n : Nat} (h : GapWithin terminators before after s n) :
    SpellsStatement (before ++ after) s n := by
  cases h with
  | ifThen start cond test thenWord gap endWord =>
      simpa using SpellsStatement.ifThen start cond test thenWord gap.spells endWord
  | ifYes start cond test thenWord gap elseWord no endWord =>
      simpa using SpellsStatement.ifElse start cond test thenWord gap.spells elseWord no endWord
  | ifNo start cond test thenWord yes elseWord gap endWord =>
      simpa using SpellsStatement.ifElse start cond test thenWord yes elseWord gap.spells endWord
  | whileDo start cond test thenWord gap endWord =>
      simpa using SpellsStatement.whileDo start cond test thenWord gap.spells endWord

end

theorem SpellsStatement.starts {ts : List Token} {s : Node Int} {n : Nat}
    (h : SpellsStatement ts s n) (a : List Token) : Starts starts (ts ++ a) := (h.derived a).starts

theorem subset_follows {own : List Kind} (subset : own ⊆ [.mark .endWord, .mark .elseWord]) :
    Grammar.starts ++ .mark .eof :: own ⊆ follows :=
  List.append_subset.mpr ⟨List.subset_append_left _ _,
    List.Subset.trans (List.cons_subset_cons _ subset) (List.subset_append_right _ _)⟩

/-- A block starts with a statement, or with what ends it. -/
theorem SpellsBlock.starts {a b : List Token} {ss : List (Node Int)} {n : Nat} {own : List Kind}
    (h : SpellsBlock a ss n) (ends : Starts (.mark .eof :: own) b) :
    Starts (Grammar.starts ++ .mark .eof :: own) (a ++ b) := by
  cases h with
  | nil => exact ends.mono (List.subset_append_right _ _)
  | cons first rest =>
      rw [List.append_assoc]
      exact (first.starts _).mono (List.subset_append_left _ _)

theorem GapWithin.starts {terminators : List Kind} {before after : List Token} {s : Node Int}
    {n : Nat} (h : GapWithin terminators before after s n) (a : List Token) :
    Starts starts (before ++ a) := by
  cases h with
  | ifThen start | ifYes start | ifNo start | whileDo start =>
      exact ⟨_, _, rfl, by rw [start]; decide⟩

/-- What stands before a gap starts with a statement, if there is anything. -/
theorem Gap.starts {terminators own : List Kind} {before after : List Token} {ss : List (Node Int)}
    {n : Nat} (h : Gap terminators own before after ss n) (a : List Token) :
    before = [] ∨ Starts starts (before ++ a) := by
  cases h with
  | here => exact .inl rfl
  | later first gap =>
      rw [List.append_assoc]
      exact .inr (first.starts _)
  | within gap rest => exact .inr (gap.starts a)

/-- From the tokens `a` on, the reader gives `x`, leaves `b`, and reports `d` alone. -/
def Notes (d : Diagnostic) (p : Parse α) (a : List Token) (x : α) (b : List Token) : Prop :=
  ∀ r : Reading, r.cursor.tokens = a → ∃ c : Cursor,
    outcome p r = (.ok x, { cursor := c, reported := r.reported.push d }) ∧ c.tokens = b

section

variable {d : Diagnostic}

theorem Notes.bind {p : Parse α} {f : α → Parse β} {a b c : List Token} {x : α} {y : β}
    (hp : Notes d p a x b) (hf : Reads (f x) b y c) : Notes d (p >>= f) a y c := by
  intro r h
  obtain ⟨c₁, first, h₁⟩ := hp r h
  obtain ⟨c₂, second, h₂⟩ := hf { cursor := c₁, reported := r.reported.push d } h₁
  exact ⟨c₂, (outcome_bind_ok first f).trans second, h₂⟩

theorem notes_bind {p : Parse α} {f : α → Parse β} {a b c : List Token} {x : α} {y : β}
    (hp : Reads p a x b) (hf : Notes d (f x) b y c) : Notes d (p >>= f) a y c := by
  intro r h
  obtain ⟨c₁, first, h₁⟩ := hp r h
  obtain ⟨c₂, second, h₂⟩ := hf { r with cursor := c₁ } h₁
  exact ⟨c₂, (outcome_bind_ok first f).trans second, h₂⟩

end

section

variable {depth : Nat} {own : List Kind} {a b c : List Token} {s : Node Int} {ss : List (Node Int)}
  {d : Diagnostic}

theorem run_list_turn {r : Reading} (going : endsAt own r.cursor.current = false) :
    (statementsWith (statement depth) own).run r =
      ((turn (statement depth) own r).1.toList ++
          ((statementsWith (statement depth) own).run (turn (statement depth) own r).2).1,
        ((statementsWith (statement depth) own).run (turn (statement depth) own r).2).2) :=
  run_statementsWith_turn (forward_law.statement depth) (Takes.statement depth) going

theorem going_of_starts {r : Reading} (first : Starts starts a)
    (subset : own ⊆ [.mark .endWord, .mark .elseWord]) (tokens : r.cursor.tokens = a) :
    endsAt own r.cursor.current = false := by
  obtain ⟨t, _, rfl, member⟩ := first
  have apart : ∀ kind ∈ starts, kind ≠ .mark .eof ∧ kind ∉ [.mark .endWord, .mark .elseWord] := by
    decide
  obtain ⟨inside, none⟩ := apart t.kind member
  have goes : t.kind ∉ own := fun member => none (subset member)
  simp [endsAt, Token.isEof, Cursor.current_of_tokens tokens, inside, goes]

theorem notes_later (first : Starts starts a) (subset : own ⊆ [.mark .endWord, .mark .elseWord])
    (h : Reads (statement depth) a s b)
    (rest : Notes d (liftM (statementsWith (statement depth) own)) b ss c) :
    Notes d (liftM (statementsWith (statement depth) own)) a (s :: ss) c := by
  intro r tokens
  have going := going_of_starts first subset tokens
  obtain ⟨c₁, given, left⟩ := h r tokens
  obtain ⟨c₂, given₂, left₂⟩ := rest { r with cursor := c₁ } left
  refine ⟨c₂, ?_, left₂⟩
  rw [outcome_liftM_eq_ok] at given₂ ⊢
  rw [run_list_turn going, turn, given, given₂]
  rfl

theorem notes_within (first : Starts starts a) (subset : own ⊆ [.mark .endWord, .mark .elseWord])
    (h : Notes d (statement depth) a s b)
    (rest : Reads (liftM (statementsWith (statement depth) own)) b ss c) :
    Notes d (liftM (statementsWith (statement depth) own)) a (s :: ss) c := by
  intro r tokens
  have going := going_of_starts first subset tokens
  obtain ⟨c₁, given, left⟩ := h r tokens
  obtain ⟨c₂, given₂, left₂⟩ := rest { cursor := c₁, reported := r.reported.push d } left
  refine ⟨c₂, ?_, left₂⟩
  rw [outcome_liftM_eq_ok] at given₂ ⊢
  rw [run_list_turn going, turn, given, given₂]
  rfl

theorem reads_spelled_condition {u v : Token} {e : Node Int} {n : Nat}
    (cond : u.kind = .mark .cond) (test : Spells levels a e n) (thenWord : v.kind = .mark .thenWord)
    (within : n + expressionCost ≤ depth) (b : List Token) :
    Reads (condition (expression depth)) (u :: (a ++ v :: b)) e b := by
  have none : ∀ level ∈ levels, level (.mark .thenWord) = none := by decide
  exact (reads_takeIf_same cond (by decide)).bind
    ((reads_expression (test.derived _) within (stops_cons.mpr (thenWord ▸ none))).bind
      ((reads_takeIf_same thenWord (by decide)).bind (.pure _ _)))

theorem reads_spelled_block {n : Nat} (h : SpellsBlock a ss n) (within : n ≤ depth)
    (subset : own ⊆ [.mark .endWord, .mark .elseWord]) (ends : Starts (.mark .eof :: own) b) :
    Reads (liftM (statementsWith (statement depth) own)) (a ++ b) ss b :=
  (h.derived b).reads.statementsWith within subset ends

theorem notes_block {n : Nat} (within : n + blockCost ≤ depth)
    (h : Notes d (liftM (statementsWith (statement (depth - blockCost)) own)) a ss b) :
    Notes d (block depth own) a ss b := by
  rwa [block, if_pos (Nat.le_of_add_left_le within)]

end

/-- What can stand in front of the tokens `a` in a list of statements with such terminators, at the
cost of the report `d` alone. No statement before it goes on with it. -/
structure Costs (terminators : List Kind) (inserted a : List Token) (d : Diagnostic) : Prop where
  stops : Stops levels (inserted ++ a)
  notes : terminators ⊆ [.mark .endWord, .mark .elseWord] →
    Starts (starts ++ .mark .eof :: terminators) a →
    ∀ {depth : Nat} {ss : List (Node Int)} {b : List Token}, depth ≤ depthLimit →
      Reads (liftM (statementsWith (statement depth) terminators)) a ss b →
      Notes d (liftM (statementsWith (statement depth) terminators)) (inserted ++ a) ss b

/-- What follows a statement is no operator: it is what was inserted or starts another statement. -/
theorem Gap.stops {terminators own : List Kind} {before after : List Token} {ss : List (Node Int)}
    {n : Nat} (h : Gap terminators own before after ss n) {inserted a : List Token} {d : Diagnostic}
    (costs : Costs terminators inserted a d) : Stops levels (before ++ (inserted ++ a)) := by
  rcases h.starts (inserted ++ a) with rfl | starts
  · exact costs.stops
  · exact stops_of_follows (starts.mono (List.subset_append_left _ _))

section

variable {terminators : List Kind} {inserted : List Token} {d : Diagnostic}

mutual

/-- With what costs a report in the gap a list of statements is read as it is without, and the report
is made. -/
theorem Gap.reports {own : List Kind} {before after : List Token} {ss : List (Node Int)} {n : Nat}
    (h : Gap terminators own before after ss n) {b : List Token}
    (costs : Costs terminators inserted (after ++ b) d)
    (subset : own ⊆ [.mark .endWord, .mark .elseWord]) {depth : Nat} (within : n ≤ depth)
    (limited : depth ≤ depthLimit) (ends : Starts (.mark .eof :: own) b) :
    Notes d (liftM (statementsWith (statement depth) own)) (before ++ (inserted ++ (after ++ b))) ss
      b := by
  cases h with
  | here block =>
      exact costs.notes subset (block.starts ends) limited
        (reads_spelled_block block within subset ends)
  | @later _ a before after s ss m n first gap =>
      rw [List.append_assoc]
      have derived := first.derived (before ++ (inserted ++ (after ++ b)))
      exact notes_later derived.starts subset
        (derived.reads depth (by omega) (gap.stops costs))
        (gap.reports costs subset (by omega) limited ends)
  | @within _ before after c s ss m n gap rest =>
      rw [List.append_assoc] at costs ⊢
      exact notes_within (gap.starts _) subset (gap.reports costs (by omega) limited)
        (reads_spelled_block rest (by omega) subset ends)

theorem GapWithin.reports {before after : List Token} {s : Node Int} {n : Nat}
    (h : GapWithin terminators before after s n) {b : List Token}
    (costs : Costs terminators inserted (after ++ b) d) {depth : Nat} (within : n ≤ depth)
    (limited : depth ≤ depthLimit) :
    Notes d (statement depth) (before ++ (inserted ++ (after ++ b))) s b := by
  rw [statement_eq]
  cases h with
  | @ifThen w c u v a before after e yes m n start cond test thenWord gap endWord =>
      simp only [List.cons_append, List.append_assoc, List.nil_append] at costs ⊢
      have yes' : Notes d (block depth [.mark .endWord, .mark .elseWord])
          (before ++ (inserted ++ (after ++ v :: b))) yes (v :: b) :=
        notes_block (n := n) (by omega)
          (gap.reports costs (List.Subset.refl _) (by omega) (by omega)
            ⟨v, b, rfl, by simp [endWord]⟩)
      refine notes_bind (reads_current w _) ?_
      rw [start]
      exact notes_bind (reads_expect start (by decide)) (notes_bind
        (reads_spelled_condition cond test thenWord (by omega) _) (yes'.bind
          ((reads_takeIf_other (by simp [endWord])).bind
            ((reads_takeIf_same endWord (by decide)).bind (.pure _ _)))))
  | @ifYes w c u f v a inner before after e yes no m n k start cond test thenWord gap elseWord other
      endWord =>
      simp only [List.cons_append, List.append_assoc, List.nil_append] at costs ⊢
      have yes' : Notes d (block depth [.mark .endWord, .mark .elseWord])
          (before ++ (inserted ++ (after ++ f :: (inner ++ v :: b)))) yes (f :: (inner ++ v :: b)) :=
        notes_block (n := n) (by omega)
          (gap.reports costs (List.Subset.refl _) (by omega) (by omega)
            ⟨f, _, rfl, by simp [elseWord]⟩)
      have no' : Reads (block depth [.mark .endWord]) (inner ++ v :: b) no (v :: b) :=
        (other.derived _).reads.block (by omega) (by simp) ⟨v, b, rfl, by simp [endWord]⟩
      refine notes_bind (reads_current w _) ?_
      rw [start]
      exact notes_bind (reads_expect start (by decide)) (notes_bind
        (reads_spelled_condition cond test thenWord (by omega) _) (yes'.bind
          ((reads_takeIf_same elseWord (by decide)).bind (no'.bind
            ((reads_takeIf_same endWord (by decide)).bind (.pure _ _))))))
  | @ifNo w c u f v a b' before after e yes no m n k start cond test thenWord first elseWord gap
      endWord =>
      simp only [List.cons_append, List.append_assoc, List.nil_append] at costs ⊢
      have yes' : Reads (block depth [.mark .endWord, .mark .elseWord])
          (b' ++ f :: (before ++ (inserted ++ (after ++ v :: b)))) yes
          (f :: (before ++ (inserted ++ (after ++ v :: b)))) :=
        (first.derived _).reads.block (by omega) (List.Subset.refl _)
          ⟨f, _, rfl, by simp [elseWord]⟩
      have no' : Notes d (block depth [.mark .endWord])
          (before ++ (inserted ++ (after ++ v :: b))) no (v :: b) :=
        notes_block (n := k) (by omega)
          (gap.reports costs (by simp) (by omega) (by omega) ⟨v, b, rfl, by simp [endWord]⟩)
      refine notes_bind (reads_current w _) ?_
      rw [start]
      exact notes_bind (reads_expect start (by decide)) (notes_bind
        (reads_spelled_condition cond test thenWord (by omega) _) (notes_bind yes'
          (notes_bind (reads_takeIf_same elseWord (by decide)) (no'.bind
            ((reads_takeIf_same endWord (by decide)).bind (.pure _ _))))))
  | @whileDo w c u v a before after e body m n start cond test thenWord gap endWord =>
      simp only [List.cons_append, List.append_assoc, List.nil_append] at costs ⊢
      have body' : Notes d (block depth [.mark .endWord])
          (before ++ (inserted ++ (after ++ v :: b))) body (v :: b) :=
        notes_block (n := n) (by omega)
          (gap.reports costs (by simp) (by omega) (by omega) ⟨v, b, rfl, by simp [endWord]⟩)
      refine notes_bind (reads_current w _) ?_
      rw [start]
      exact notes_bind (reads_expect start (by decide)) (notes_bind
        (reads_spelled_condition cond test thenWord (by omega) _) (body'.bind
          ((reads_takeIf_same endWord (by decide)).bind (.pure _ _))))

end

end

end SlangScript.Grammar
