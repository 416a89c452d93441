import SlangScript.Proofs.Grammar.Derivation

/-!
Programs that are spelled out: every parenthesis is closed, the words around a condition are there,
and every block ends with its word. Where a phrase ends then does not depend on what comes behind
it, so the tokens of a phrase are related to its tree alone, and the grammar derives the phrase in
front of anything.
-/

namespace SlangScript.Grammar

open Parse

/-- An expression of some levels, spelled out: `Spells levels ts e n` relates the tokens `ts` to the
tree `e`, with nesting `n`. Without a level it is unary. -/
inductive Spells : List Level → List Token → Node Int → Nat → Prop
  | number {t x} : t.lexeme = .number x → Spells [] [t] (.number t.line x) 0
  | text {t s} : t.lexeme = .text s → Spells [] [t] (.text t.line s) 0
  | flag {t x} : t.lexeme = .flag x → Spells [] [t] (.flag t.line x) 0
  | var {t name} : t.lexeme = .ident name → Spells [] [t] (.var t.line name) 0
  | closed {t u a e n} : t.kind = .mark .lparen → Spells levels a e n → u.kind = .mark .rparen →
      Spells [] (t :: (a ++ [u])) e (n + expressionCost)
  | unary {t op a e n} : unaryOp? t.kind = some op → Spells [] a e n →
      Spells [] (t :: a) (.unary t.line op e) (n + 1)
  | tighter {level ls a e n} : Spells ls a e n → Spells (level :: ls) a e n
  | binary {level ls t op a b l r m n} : Spells (level :: ls) a l m → level t.kind = some op →
      Spells ls b r n → Spells (level :: ls) (a ++ t :: b) (.binary t.line l op r) (max m n)

mutual

/-- A statement that is spelled out. Only the word that asks for a loud voice may be missing. -/
inductive SpellsStatement : List Token → Node Int → Nat → Prop
  | declare {t u v name a e n} : t.kind = .mark .letWord → u.lexeme = .ident name →
      v.kind = .mark .assign → Spells levels a e n →
      SpellsStatement (t :: u :: v :: a) (.declare t.line name e) (n + expressionCost)
  | assign {u v name a e n} : u.lexeme = .ident name → v.kind = .mark .assign →
      Spells levels a e n → SpellsStatement (u :: v :: a) (.assign u.line name e) (n + expressionCost)
  | print {t a e n} {word : Option Token} : t.kind = .mark .print →
      (∀ u ∈ word, u.kind = .mark .highkey) → Spells levels a e n →
      SpellsStatement (t :: (word.toList ++ a)) (.print t.line e) (n + expressionCost)
  | debugPrint {t a e n} : t.kind = .mark .lowkey → Spells levels a e n →
      SpellsStatement (t :: a) (.debugPrint t.line e) (n + expressionCost)
  | breakOut {t} : t.kind = .mark .breakWord → SpellsStatement [t] (.breakOut t.line) 0
  | continueOn {t} : t.kind = .mark .continueWord → SpellsStatement [t] (.continueOn t.line) 0
  | ifThen {t c u v a b e yes m n} : t.kind = .mark .ifWord → c.kind = .mark .cond →
      Spells levels a e m → u.kind = .mark .thenWord → SpellsBlock b yes n →
      v.kind = .mark .endWord →
      SpellsStatement (t :: c :: (a ++ u :: (b ++ [v]))) (.ifThen t.line e yes)
        (max (m + expressionCost) (n + blockCost))
  | ifElse {t c u w v a b d e yes no m n k} : t.kind = .mark .ifWord → c.kind = .mark .cond →
      Spells levels a e m → u.kind = .mark .thenWord → SpellsBlock b yes n →
      w.kind = .mark .elseWord → SpellsBlock d no k → v.kind = .mark .endWord →
      SpellsStatement (t :: c :: (a ++ u :: (b ++ w :: (d ++ [v])))) (.ifElse t.line e yes no)
        (max (m + expressionCost) (max n k + blockCost))
  | whileDo {t c u v a b e body m n} : t.kind = .mark .whileWord → c.kind = .mark .cond →
      Spells levels a e m → u.kind = .mark .thenWord → SpellsBlock b body n →
      v.kind = .mark .endWord →
      SpellsStatement (t :: c :: (a ++ u :: (b ++ [v]))) (.whileDo t.line e body)
        (max (m + expressionCost) (n + blockCost))

inductive SpellsBlock : List Token → List (Node Int) → Nat → Prop
  | nil : SpellsBlock [] [] 0
  | cons {a b s ss m n} : SpellsStatement a s m → SpellsBlock b ss n →
      SpellsBlock (a ++ b) (s :: ss) (max m n)

end

theorem Spells.derived {ls : List Level} {ts : List Token} {e : Node Int} {n : Nat}
    (h : Spells ls ts e n) (b : List Token) : Expression ls (ts ++ b) e b n := by
  induction h generalizing b with
  | number same => exact .number same
  | text same => exact .text same
  | flag same => exact .flag same
  | var same => exact .var same
  | @closed t u a e n opening _ closing ih =>
      have inner := ih (u :: b)
      rw [List.cons_append, List.append_assoc]
      exact .closed opening inner closing
  | unary op _ ih => exact .unary op (ih b)
  | tighter _ ih => exact .tighter (ih b)
  | binary _ op _ ihl ihr =>
      rw [List.append_assoc]
      exact .binary (ihl _) op (ihr b)

theorem optional_of_spelled {word : Option Token} (h : ∀ u ∈ word, u.kind = .mark .highkey)
    (a : List Token) : Optional .highkey (word.toList ++ a) a := by
  cases word with
  | none => exact .absent
  | some u => exact .present (h u rfl)

theorem condition_of_spelled {c u : Token} {a : List Token} {e : Node Int} {n : Nat}
    (cond : c.kind = .mark .cond) (test : Spells levels a e n) (thenWord : u.kind = .mark .thenWord)
    (b : List Token) : Condition (c :: (a ++ u :: b)) e b (n + expressionCost) :=
  .intro (.present cond) (test.derived _) (.present thenWord)

mutual

theorem SpellsStatement.derived {ts : List Token} {s : Node Int} {n : Nat}
    (h : SpellsStatement ts s n) (b : List Token) : Statement (ts ++ b) s b n := by
  cases h with
  | declare start ident assign value => exact .declare start ident assign (value.derived b)
  | assign ident assign value => exact .assign ident assign (value.derived b)
  | print start word value =>
      rw [List.cons_append, List.append_assoc]
      exact .print start (optional_of_spelled word _) (value.derived b)
  | debugPrint start value => exact .debugPrint start (value.derived b)
  | breakOut start => exact .breakOut start
  | continueOn start => exact .continueOn start
  | ifThen start cond test thenWord body endWord =>
      simp only [List.cons_append, List.append_assoc, List.nil_append]
      exact .ifThen start (condition_of_spelled cond test thenWord _) (body.derived _)
        (.written endWord)
  | ifElse start cond test thenWord yes elseWord no endWord =>
      simp only [List.cons_append, List.append_assoc, List.nil_append]
      exact .ifElse start (condition_of_spelled cond test thenWord _) (yes.derived _) elseWord
        (no.derived _) (.written endWord)
  | whileDo start cond test thenWord body endWord =>
      simp only [List.cons_append, List.append_assoc, List.nil_append]
      exact .whileDo start (condition_of_spelled cond test thenWord _) (body.derived _)
        (.written endWord)

theorem SpellsBlock.derived {ts : List Token} {ss : List (Node Int)} {n : Nat}
    (h : SpellsBlock ts ss n) (b : List Token) : Block (ts ++ b) ss b n := by
  cases h with
  | nil => exact .nil
  | cons first rest =>
      rw [List.append_assoc]
      exact .cons (first.derived _) (rest.derived b)

end

end SlangScript.Grammar
