import SlangScript.Proofs.Grammar.Program
import SlangScript.Proofs.Node.Printer

/-!
What a derivation depends on. Lines and columns only tag its tree; and where every block is closed
by its word, the end of the text may be replaced by the start of another program. So a program that
closes its blocks can be followed by another one.
-/

namespace SlangScript.Grammar

open Parse

/-- How a token changes the number of blocks that are open. -/
def weight : Kind → Int
  | .mark .ifWord | .mark .whileWord => 1
  | .mark .endWord => -1
  | _ => 0

/-- The blocks that the tokens open, less those that they close. -/
def balance : List Token → Int
  | [] => 0
  | t :: a => weight t.kind + balance a

@[simp] theorem balance_nil : balance [] = 0 := rfl

@[simp] theorem balance_cons (t : Token) (a : List Token) :
    balance (t :: a) = weight t.kind + balance a := rfl

@[simp] theorem balance_append (a b : List Token) : balance (a ++ b) = balance a + balance b := by
  induction a with
  | nil => simp
  | cons t a ih => rw [List.cons_append, balance_cons, balance_cons, ih, Int.add_assoc]

theorem weight_of_joins {level : Level} {kind : Kind} {op : BinaryOp} (member : level ∈ levels)
    (joins : level kind = some op) : weight kind = 0 := by
  have none : ∀ level ∈ levels, level (.mark .ifWord) = none ∧ level (.mark .whileWord) = none ∧
      level (.mark .endWord) = none := by decide
  obtain ⟨ifWord, whileWord, endWord⟩ := none level member
  unfold weight
  split
  · rw [ifWord] at joins
    cases joins
  · rw [whileWord] at joins
    cases joins
  · rw [endWord] at joins
    cases joins
  · rfl

theorem Expression.balance_eq {ls : List Level} {a b : List Token} {e : Node Int} {n : Nat}
    (h : Expression ls a e b n) (suffix : ls <:+ levels) : balance a = balance b := by
  induction h with
  | number same | text same | flag same | var same =>
      simp [Token.kind, same, Lexeme.kind, weight]
  | closed opening _ closing ih =>
      have inner := ih (List.suffix_refl levels)
      simp only [balance_cons, opening, closing, weight] at inner ⊢
      omega
  | unclosed opening _ _ _ ih =>
      have inner := ih (List.suffix_refl levels)
      simp only [balance_cons, opening, weight] at inner ⊢
      omega
  | unary op _ ih =>
      have inner := ih suffix
      rcases kind_of_unaryOp op with same | same <;>
        simpa [same, weight] using inner
  | tighter _ ih => exact ih ((List.suffix_cons _ _).trans suffix)
  | binary _ joins _ ihl ihr =>
      have left := ihl suffix
      have right := ihr ((List.suffix_cons _ _).trans suffix)
      rw [balance_cons, weight_of_joins (suffix.subset (.head _)) joins] at left
      omega

theorem Optional.balance_eq {word : Mark} {a b : List Token} (h : Optional word a b)
    (even : weight (.mark word) = 0) : balance a = balance b := by
  cases h with
  | absent => rfl
  | present same => simp [same, even]

theorem Condition.balance_eq {a b : List Token} {e : Node Int} {n : Nat} (h : Condition a e b n) :
    balance a = balance b := by
  cases h with
  | intro before derived after =>
      rw [before.balance_eq rfl, derived.balance_eq (List.suffix_refl levels), after.balance_eq rfl]

theorem Close.balance_le {a b : List Token} (h : Close a b) : balance b ≤ balance a + 1 := by
  cases h with
  | written same =>
      simp only [balance_cons, same, weight]
      omega
  | missing => omega

theorem kind_of_ident {t : Token} {name : String} (h : t.lexeme = .ident name) :
    t.kind = .ident := by
  rw [Token.kind, h]
  rfl

theorem Expression.balance_whole {a b : List Token} {e : Node Int} {n : Nat}
    (h : Expression levels a e b n) : balance a = balance b := h.balance_eq (List.suffix_refl levels)

mutual

/-- A phrase closes no more blocks than it opens. -/
theorem Statement.balance_le {a b : List Token} {s : Node Int} {n : Nat} (h : Statement a s b n) :
    balance b ≤ balance a := by
  cases h with
  | declare start ident assign derived =>
      have even := derived.balance_whole
      simp only [balance_cons, start, kind_of_ident ident, assign, weight]
      omega
  | assign ident assign derived =>
      have even := derived.balance_whole
      simp only [balance_cons, kind_of_ident ident, assign, weight]
      omega
  | print start word derived =>
      have even := (word.balance_eq rfl).trans derived.balance_whole
      simp only [balance_cons, start, weight]
      omega
  | debugPrint start derived =>
      have even := derived.balance_whole
      simp only [balance_cons, start, weight]
      omega
  | breakOut start | continueOn start =>
      simp only [balance_cons, start, weight]
      omega
  | ifThen start test body close | whileDo start test body close =>
      have even := test.balance_eq
      have inner := body.balance_le
      have closes := close.balance_le
      simp only [balance_cons, start, weight]
      omega
  | ifElse start test yes isElse no close =>
      have even := test.balance_eq
      have first := yes.balance_le
      have second := no.balance_le
      have closes := close.balance_le
      simp only [balance_cons, isElse, weight] at first
      simp only [balance_cons, start, weight]
      omega

theorem Block.balance_le {a b : List Token} {ss : List (Node Int)} {n : Nat} (h : Block a ss b n) :
    balance b ≤ balance a := by
  cases h with
  | nil => exact Int.le_refl _
  | cons first rest => exact Int.le_trans rest.balance_le first.balance_le

end

/-- The same lexemes at other places, with `rest` in the place of the token that ends the text. -/
inductive Retold (rest : List Token) : List Token → List Token → Prop
  | done {last} : last.kind = .mark .eof → Retold rest [last] rest
  | next {t t' a a'} : t'.lexeme = t.lexeme → Retold rest a a' → Retold rest (t :: a) (t' :: a')

namespace Retold

variable {rest a b a' : List Token} {t : Token}

theorem of_lexemes {body body' : List Token} {last : Token} (ends : last.kind = .mark .eof)
    (same : body'.map Token.lexeme = body.map Token.lexeme) :
    Retold rest (body ++ [last]) (body' ++ rest) := by
  induction body generalizing body' with
  | nil =>
      obtain rfl := List.map_eq_nil_iff.mp same
      exact .done ends
  | cons t body ih =>
      obtain ⟨t', body', rfl, lexeme, same⟩ := List.map_eq_cons_iff.mp same
      exact .next lexeme (ih same)

theorem eq_of_end (h : Retold rest [t] a') : a' = rest := by
  cases h with
  | done => rfl
  | next _ behind => cases behind

/-- A token that does not end the text is there again. -/
theorem exists_cons (h : Retold rest (t :: a) a') (inside : t.kind ≠ .mark .eof) :
    ∃ t' b, a' = t' :: b ∧ t'.lexeme = t.lexeme ∧ Retold rest a b := by
  cases h with
  | done ends => exact absurd ends inside
  | next same behind => exact ⟨_, _, rfl, same, behind⟩

theorem kind_eq {t' : Token} (h : t'.lexeme = t.lexeme) : t'.kind = t.kind := by
  rw [Token.kind, h, Token.kind]

theorem exists_cons_of_kind {kind : Kind} (h : Retold rest (t :: a) a') (same : t.kind = kind)
    (inside : kind ≠ .mark .eof) : ∃ t' b, a' = t' :: b ∧ t'.kind = kind ∧ Retold rest a b := by
  obtain ⟨t', b, rfl, lexeme, behind⟩ := h.exists_cons (same ▸ inside)
  exact ⟨t', b, rfl, (kind_eq lexeme).trans same, behind⟩

theorem exists_cons_of_lexeme {lexeme : Lexeme} (h : Retold rest (t :: a) a')
    (same : t.lexeme = lexeme) (inside : lexeme ≠ .mark .eof) :
    ∃ t' b, a' = t' :: b ∧ t'.lexeme = lexeme ∧ Retold rest a b := by
  have kind : t.kind ≠ .mark .eof := fun ends => inside (same ▸ Token.lexeme_of_kind ends)
  obtain ⟨t', b, rfl, lexeme, behind⟩ := h.exists_cons kind
  exact ⟨t', b, rfl, lexeme.trans same, behind⟩

/-- What could stand behind an expression without a closing parenthesis still can. -/
theorem head (h : Retold rest (t :: a) a') (follow : Starts follows rest)
    (other : t.kind ≠ .mark .rparen) (stops : Stops levels (t :: a)) :
    ∃ t' b, a' = t' :: b ∧ t'.kind ≠ .mark .rparen ∧ Stops levels (t' :: b) := by
  cases h with
  | done => exact exists_head_of_follows follow
  | next same behind =>
      refine ⟨_, _, rfl, kind_eq same ▸ other, ?_⟩
      rw [stops_cons, kind_eq same]
      exact stops_cons.mp stops

end Retold

section

variable {rest : List Token}

theorem Expression.retold {ls : List Level} {a b a' : List Token} {e : Node Int} {n : Nat}
    (h : Expression ls a e b n) (suffix : ls <:+ levels) (follow : Starts follows rest)
    (same : Retold rest a a') : ∃ (e' : Node Int) (b' : List Token), e'.untag = e.untag ∧
      Retold rest b b' ∧ Expression ls a' e' b' n := by
  induction h generalizing a' with
  | number value =>
      obtain ⟨t', b', rfl, value', behind⟩ := same.exists_cons_of_lexeme value (by simp)
      exact ⟨.number t'.line _, b', rfl, behind, .number value'⟩
  | text value =>
      obtain ⟨t', b', rfl, value', behind⟩ := same.exists_cons_of_lexeme value (by simp)
      exact ⟨.text t'.line _, b', rfl, behind, .text value'⟩
  | flag value =>
      obtain ⟨t', b', rfl, value', behind⟩ := same.exists_cons_of_lexeme value (by simp)
      exact ⟨.flag t'.line _, b', rfl, behind, .flag value'⟩
  | var name =>
      obtain ⟨t', b', rfl, name', behind⟩ := same.exists_cons_of_lexeme name (by simp)
      exact ⟨.var t'.line _, b', rfl, behind, .var name'⟩
  | closed opening _ closing ih =>
      obtain ⟨t', c, rfl, opening', inner⟩ := same.exists_cons_of_kind opening (by decide)
      obtain ⟨e', b', erased, after, derived⟩ := ih (List.suffix_refl levels) inner
      obtain ⟨u', d, rfl, closing', behind⟩ := after.exists_cons_of_kind closing (by decide)
      exact ⟨e', d, erased, behind, .closed opening' derived closing'⟩
  | unclosed opening _ other stops ih =>
      obtain ⟨t', c, rfl, opening', inner⟩ := same.exists_cons_of_kind opening (by decide)
      obtain ⟨e', b', erased, after, derived⟩ := ih (List.suffix_refl levels) inner
      obtain ⟨u', d, rfl, other', stops'⟩ := after.head follow other stops
      exact ⟨e', _, erased, after, .unclosed opening' derived other' stops'⟩
  | @unary t op _ _ _ _ sign _ ih =>
      have inside : t.kind ≠ .mark .eof := by
        rcases kind_of_unaryOp sign with kind | kind <;> simp [kind]
      obtain ⟨t', c, rfl, kind, inner⟩ := same.exists_cons_of_kind rfl inside
      obtain ⟨e', b', erased, behind, derived⟩ := ih suffix inner
      exact ⟨.unary t'.line op e', b', by simp only [Node.untag, erased], behind,
        .unary (kind ▸ sign) derived⟩
  | tighter _ ih =>
      obtain ⟨e', b', erased, behind, derived⟩ := ih ((List.suffix_cons _ _).trans suffix) same
      exact ⟨e', b', erased, behind, .tighter derived⟩
  | @binary level ls t op _ _ _ _ _ _ _ _ joins _ ihl ihr =>
      have inside : t.kind ≠ .mark .eof :=
        inside_of_joins (level_eof level (suffix.subset (.head ls))) joins
      obtain ⟨l, c, erasedL, middle, left⟩ := ihl suffix same
      obtain ⟨t', c, rfl, kind, after⟩ := middle.exists_cons_of_kind rfl inside
      obtain ⟨r, b', erasedR, behind, right⟩ := ihr ((List.suffix_cons _ _).trans suffix) after
      exact ⟨.binary t'.line l op r, b', by simp only [Node.untag, erasedL, erasedR], behind,
        .binary left (kind ▸ joins) right⟩

theorem Expression.retold_whole {a b a' : List Token} {e : Node Int} {n : Nat}
    (h : Expression levels a e b n) (follow : Starts follows rest) (same : Retold rest a a') :
    ∃ (e' : Node Int) (b' : List Token), e'.untag = e.untag ∧ Retold rest b b' ∧
      Expression levels a' e' b' n := h.retold (List.suffix_refl levels) follow same

theorem Optional.retold {word : Mark} {a b a' : List Token} (h : Optional word a b)
    (inside : word ≠ .eof) (same : Retold rest a a') :
    ∃ b', Retold rest b b' ∧ Optional word a' b' := by
  cases h with
  | absent => exact ⟨a', same, .absent⟩
  | present kind =>
      obtain ⟨t', b', rfl, kind', behind⟩ := same.exists_cons_of_kind kind (by simpa using inside)
      exact ⟨b', behind, .present kind'⟩

theorem Condition.retold {a b a' : List Token} {e : Node Int} {n : Nat} (h : Condition a e b n)
    (follow : Starts follows rest) (same : Retold rest a a') :
    ∃ (e' : Node Int) (b' : List Token), e'.untag = e.untag ∧ Retold rest b b' ∧
      Condition a' e' b' n := by
  cases h with
  | intro before derived after =>
      obtain ⟨c, same, before'⟩ := before.retold (by decide) same
      obtain ⟨e', d, erased, same, derived'⟩ := derived.retold_whole follow same
      obtain ⟨b', same, after'⟩ := after.retold (by decide) same
      exact ⟨e', b', erased, same, .intro before' derived' after'⟩

/-- A block that is closed by its word still is. -/
theorem Close.retold {a b a' : List Token} (h : Close a b) (closes : balance a + 1 ≤ balance b)
    (same : Retold rest a a') : ∃ b', Retold rest b b' ∧ Close a' b' := by
  cases h with
  | written kind =>
      obtain ⟨t', b', rfl, kind', behind⟩ := same.exists_cons_of_kind kind (by decide)
      exact ⟨b', behind, .written kind'⟩
  | missing => omega

mutual

/-- A statement that closes as many blocks as it opens is derived again. -/
theorem Statement.retold {a b a' : List Token} {s : Node Int} {n : Nat} (h : Statement a s b n)
    (even : balance a ≤ balance b) (follow : Starts follows rest) (same : Retold rest a a') :
    ∃ (s' : Node Int) (b' : List Token), s'.untag = s.untag ∧ Retold rest b b' ∧
      Statement a' s' b' n := by
  cases h with
  | declare start ident assign derived =>
      obtain ⟨t, _, rfl, start', same⟩ := same.exists_cons_of_kind start (by decide)
      obtain ⟨u, _, rfl, ident', same⟩ := same.exists_cons_of_lexeme ident (by simp)
      obtain ⟨v, _, rfl, assign', same⟩ := same.exists_cons_of_kind assign (by decide)
      obtain ⟨e, b', erased, same, derived'⟩ := derived.retold_whole follow same
      exact ⟨.declare t.line _ e, b', by simp only [Node.untag, erased], same,
        .declare start' ident' assign' derived'⟩
  | assign ident assign derived =>
      obtain ⟨u, _, rfl, ident', same⟩ := same.exists_cons_of_lexeme ident (by simp)
      obtain ⟨v, _, rfl, assign', same⟩ := same.exists_cons_of_kind assign (by decide)
      obtain ⟨e, b', erased, same, derived'⟩ := derived.retold_whole follow same
      exact ⟨.assign u.line _ e, b', by simp only [Node.untag, erased], same,
        .assign ident' assign' derived'⟩
  | print start word derived =>
      obtain ⟨t, _, rfl, start', same⟩ := same.exists_cons_of_kind start (by decide)
      obtain ⟨_, same, word'⟩ := word.retold (by decide) same
      obtain ⟨e, b', erased, same, derived'⟩ := derived.retold_whole follow same
      exact ⟨.print t.line e, b', by simp only [Node.untag, erased], same,
        .print start' word' derived'⟩
  | debugPrint start derived =>
      obtain ⟨t, _, rfl, start', same⟩ := same.exists_cons_of_kind start (by decide)
      obtain ⟨e, b', erased, same, derived'⟩ := derived.retold_whole follow same
      exact ⟨.debugPrint t.line e, b', by simp only [Node.untag, erased], same,
        .debugPrint start' derived'⟩
  | breakOut start =>
      obtain ⟨t, b', rfl, start', same⟩ := same.exists_cons_of_kind start (by decide)
      exact ⟨.breakOut t.line, b', rfl, same, .breakOut start'⟩
  | continueOn start =>
      obtain ⟨t, b', rfl, start', same⟩ := same.exists_cons_of_kind start (by decide)
      exact ⟨.continueOn t.line, b', rfl, same, .continueOn start'⟩
  | ifThen start test body close =>
      have whole := test.balance_eq
      have inner := body.balance_le
      have closes := close.balance_le
      simp only [balance_cons, start, weight] at even
      obtain ⟨t, _, rfl, start', same⟩ := same.exists_cons_of_kind start (by decide)
      obtain ⟨e, _, erasedC, same, test'⟩ := test.retold follow same
      obtain ⟨yes, _, erasedB, same, body'⟩ := body.retold (by omega) follow same
      obtain ⟨b', same, close'⟩ := close.retold (by omega) same
      exact ⟨.ifThen t.line e yes, b', by simp only [Node.untag, erasedC, erasedB], same,
        .ifThen start' test' body' close'⟩
  | ifElse start test yes isElse no close =>
      have whole := test.balance_eq
      have first := yes.balance_le
      have second := no.balance_le
      have closes := close.balance_le
      simp only [balance_cons, isElse, weight] at first
      simp only [balance_cons, start, weight] at even
      obtain ⟨t, _, rfl, start', same⟩ := same.exists_cons_of_kind start (by decide)
      obtain ⟨e, _, erasedC, same, test'⟩ := test.retold follow same
      obtain ⟨ss, _, erasedY, same, yes'⟩ :=
        yes.retold (by simp only [balance_cons, isElse, weight]; omega) follow same
      obtain ⟨u, _, rfl, isElse', same⟩ := same.exists_cons_of_kind isElse (by decide)
      obtain ⟨ss', _, erasedN, same, no'⟩ := no.retold (by omega) follow same
      obtain ⟨b', same, close'⟩ := close.retold (by omega) same
      exact ⟨.ifElse t.line e ss ss', b', by simp only [Node.untag, erasedC, erasedY, erasedN], same,
        .ifElse start' test' yes' isElse' no' close'⟩
  | whileDo start test body close =>
      have whole := test.balance_eq
      have inner := body.balance_le
      have closes := close.balance_le
      simp only [balance_cons, start, weight] at even
      obtain ⟨t, _, rfl, start', same⟩ := same.exists_cons_of_kind start (by decide)
      obtain ⟨e, _, erasedC, same, test'⟩ := test.retold follow same
      obtain ⟨ss, _, erasedB, same, body'⟩ := body.retold (by omega) follow same
      obtain ⟨b', same, close'⟩ := close.retold (by omega) same
      exact ⟨.whileDo t.line e ss, b', by simp only [Node.untag, erasedC, erasedB], same,
        .whileDo start' test' body' close'⟩

theorem Block.retold {a b a' : List Token} {ss : List (Node Int)} {n : Nat} (h : Block a ss b n)
    (even : balance a ≤ balance b) (follow : Starts follows rest) (same : Retold rest a a') :
    ∃ (ss' : List (Node Int)) (b' : List Token), Node.untagAll ss' = Node.untagAll ss ∧
      Retold rest b b' ∧ Block a' ss' b' n := by
  cases h with
  | nil => exact ⟨[], a', rfl, same, .nil⟩
  | cons first behind =>
      have least := first.balance_le
      have less := behind.balance_le
      obtain ⟨s', _, erasedS, same, first'⟩ := first.retold (by omega) follow same
      obtain ⟨ss', b', erasedB, same, behind'⟩ := behind.retold (by omega) follow same
      exact ⟨s' :: ss', b', by simp only [Node.untagAll, erasedS, erasedB], same,
        .cons first' behind'⟩

end

end

theorem Block.append {a b c : List Token} {ss ss' : List (Node Int)} {m n : Nat}
    (h : Block a ss b m) (h' : Block b ss' c n) : Block a (ss ++ ss') c (max m n) := by
  induction ss generalizing a m with
  | nil =>
      cases h with
      | nil => simpa using h'
  | cons s ss ih =>
      cases h with
      | cons first rest =>
          rw [Nat.max_assoc]
          exact .cons first (ih rest)

theorem Program.starts {tokens : List Token} {S : List (Node Int)} {n : Nat}
    (h : Program tokens S n) : Starts follows tokens := by
  obtain ⟨last, ends, derived⟩ := h
  have kind : last.kind = .mark .eof := Token.kind_of_isEof ends
  exact derived.starts ⟨last, [], rfl, by simp [kind]⟩

/-- A program that closes its blocks can be written in front of another one, at other places. -/
theorem Program.append {body front rest : List Token} {last : Token} {S S' : List (Node Int)}
    {m n : Nat} (h : Program (body ++ [last]) S m) (ends : last.isEof = true)
    (even : balance body = 0) (same : front.map Token.lexeme = body.map Token.lexeme)
    (h' : Program rest S' n) : ∃ S₁ : List (Node Int), Node.untagAll S₁ = Node.untagAll S ∧
      Program (front ++ rest) (S₁ ++ S') (max m n) := by
  have follow := h'.starts
  have kind : last.kind = .mark .eof := Token.kind_of_isEof ends
  obtain ⟨last', ends', derived⟩ := h
  obtain ⟨last₂, ends₂, derived₂⟩ := h'
  have kind' : last'.kind = .mark .eof := Token.kind_of_isEof ends'
  have closes : balance (body ++ [last]) ≤ balance [last'] := by
    simp [even, kind, kind', weight]
  obtain ⟨S₁, b, erased, left, derived₁⟩ :=
    derived.retold closes follow (Retold.of_lexemes kind same)
  obtain rfl := left.eq_of_end
  exact ⟨S₁, erased, last₂, ends₂, derived₁.append derived₂⟩

end SlangScript.Grammar
