import Mathlib.Data.List.NodupEquivFin
import SlangScript.Proofs.Grammar.Progress
import SlangScript.Proofs.Grammar.Shape
import SlangScript.Proofs.Node.Printer

/-!
A tree keeps the order of its text. Its names, literals, signs and words, taken in source order, are
tokens of the list that was read, each at a later place than the one before, and a node has the line
of its token. This holds of every list of tokens: a statement that is given up gives nothing, and
reading goes on behind what it passed.
-/

namespace SlangScript

/-- A token that a tree stands for: what it says, and the line of the node that it belongs to. The
name in a declaration has none, since the line of a declaration is that of its first word. -/
structure Item where
  lexeme : Lexeme
  line : Option Int

def Item.Fits (item : Item) (t : Token) : Prop :=
  t.lexeme = item.lexeme ∧ ∀ line ∈ item.line, t.line = line

namespace Node

mutual

/-- The tokens that a node stands for, in source order. -/
def items : Node Int → List Item
  | .number line value => [⟨.number value, some line⟩]
  | .text line value => [⟨.text value, some line⟩]
  | .flag line value => [⟨.flag value, some line⟩]
  | .var line name => [⟨.ident name, some line⟩]
  | .binary line left op right => items left ++ ⟨.mark op.mark, some line⟩ :: items right
  | .unary line op operand => ⟨.mark op.mark, some line⟩ :: items operand
  | .declare line name value => ⟨.mark .letWord, some line⟩ :: ⟨.ident name, none⟩ :: items value
  | .assign line name value => ⟨.ident name, some line⟩ :: items value
  | .print line value => ⟨.mark .print, some line⟩ :: items value
  | .debugPrint line value => ⟨.mark .lowkey, some line⟩ :: items value
  | .ifThen line condition body =>
    ⟨.mark .ifWord, some line⟩ :: (items condition ++ itemsAll body)
  | .ifElse line condition yes no =>
    ⟨.mark .ifWord, some line⟩ :: (items condition ++ (itemsAll yes ++ itemsAll no))
  | .whileDo line condition body =>
    ⟨.mark .whileWord, some line⟩ :: (items condition ++ itemsAll body)
  | .breakOut line => [⟨.mark .breakWord, some line⟩]
  | .continueOn line => [⟨.mark .continueWord, some line⟩]
  | .bare _ | .missing => []

def itemsAll : List (Node Int) → List Item
  | [] => []
  | node :: nodes => items node ++ itemsAll nodes

end

end Node

/-- The items are tokens of the list, in this order. -/
def Drawn (items : List Item) (tokens : List Token) : Prop :=
  ∃ picked, List.Forall₂ Item.Fits items picked ∧ picked.Sublist tokens

namespace Drawn

theorem nil (tokens : List Token) : Drawn [] tokens := ⟨[], .nil, List.nil_sublist tokens⟩

theorem single {lexeme : Lexeme} {t : Token} (h : t.lexeme = lexeme) :
    Drawn [⟨lexeme, some t.line⟩] [t] := by
  refine ⟨[t], .cons ⟨h, ?_⟩ .nil, List.Sublist.refl [t]⟩
  rintro line ⟨⟩
  rfl

theorem lineless {lexeme : Lexeme} {t : Token} (h : t.lexeme = lexeme) :
    Drawn [⟨lexeme, none⟩] [t] :=
  ⟨[t], .cons ⟨h, fun _ member => nomatch member⟩ .nil, List.Sublist.refl [t]⟩

theorem append {items items' : List Item} {tokens tokens' : List Token} (h : Drawn items tokens)
    (h' : Drawn items' tokens') : Drawn (items ++ items') (tokens ++ tokens') := by
  obtain ⟨picked, fits, sublist⟩ := h
  obtain ⟨picked', fits', sublist'⟩ := h'
  exact ⟨picked ++ picked', List.rel_append fits fits', sublist.append sublist'⟩

theorem mono {items : List Item} {tokens tokens' : List Token} (h : Drawn items tokens)
    (sublist : tokens.Sublist tokens') : Drawn items tokens' := by
  obtain ⟨picked, fits, inside⟩ := h
  exact ⟨picked, fits, inside.trans sublist⟩

/-- Items that are drawn have rising places in the list. -/
theorem places {items : List Item} {tokens : List Token} (h : Drawn items tokens) :
    ∃ place : Fin items.length → Fin tokens.length, StrictMono place ∧
      ∀ i, (items.get i).Fits (tokens.get (place i)) := by
  obtain ⟨picked, fits, sublist⟩ := h
  obtain ⟨place, same⟩ := List.sublist_iff_exists_fin_orderEmbedding_get_eq.mp sublist
  have length := fits.length_eq
  refine ⟨fun i => place (i.cast length), ?_, ?_⟩
  · intro i j less
    exact place.strictMono less
  · intro i
    rw [← same]
    exact fits.get i.isLt (length ▸ i.isLt)

end Drawn

theorem Cursor.Moves.passed {c c' : Cursor} (h : c.Moves c') :
    ∃ passed, c.rest = passed ++ c'.rest := by
  obtain ⟨count, _, rfl⟩ := h
  exact ⟨c.rest.take count, (List.take_append_drop count c.rest).symm⟩

namespace Parse

variable {α β : Type}

/-- Where `given` is drawn from the tokens before, the items of whatever the reader gives are drawn
from these and the tokens that it passes. -/
def Draws (given : List Item) (p : Parse α) (items : α → List Item) : Prop :=
  ∀ r x r₁, outcome p r = (.ok x, r₁) → ∃ passed, r.cursor.rest = passed ++ r₁.cursor.rest ∧
    ∀ before, Drawn given before → Drawn (items x) (before ++ passed)

namespace Draws

variable {given middle : List Item} {items : α → List Item} {items' : β → List Item}

theorem pure {x : α} (h : items x = given) : Draws given (pure x) items := by
  intro r y r₁ same
  cases same
  refine ⟨[], rfl, fun before drawn => ?_⟩
  rw [h, List.append_nil]
  exact drawn

theorem throw (failure : Failure) : Draws given (throw failure : Parse α) items := by
  intro r y r₁ same
  cases same

theorem bind {p : Parse α} {f : α → Parse β} (hp : Draws given p items)
    (hf : ∀ x, Draws (items x) (f x) items') : Draws given (p >>= f) items' := by
  intro r y r₂ same
  obtain ⟨x, r₁, first, second⟩ := outcome_bind_eq_ok same
  obtain ⟨passed, rest, drawn⟩ := hp r x r₁ first
  obtain ⟨passed', rest', drawn'⟩ := hf x r₁ y r₂ second
  refine ⟨passed ++ passed', ?_, fun before start => ?_⟩
  · rw [rest, rest', List.append_assoc]
  · rw [← List.append_assoc]
    exact drawn' _ (drawn before start)

/-- What a reader draws comes behind whatever was drawn before. -/
theorem frame {p : Parse α} (h : Draws [] p items) (given : List Item) :
    Draws given p fun x => given ++ items x := by
  intro r x r₁ same
  obtain ⟨passed, rest, drawn⟩ := h r x r₁ same
  exact ⟨passed, rest, fun before start => start.append (drawn [] (.nil []))⟩

/-- Tokens may be passed without a place in the tree. -/
theorem forward {p : Parse α} (h : Forward p) : Draws given p fun _ => given := by
  intro r x r₁ same
  have moves := h r
  rw [same] at moves
  obtain ⟨passed, rest⟩ := moves.passed
  exact ⟨passed, rest, fun before drawn => drawn.mono (List.sublist_append_left before passed)⟩

theorem skip {p : Parse α} {f : α → Parse β} (hp : Forward p) (hf : ∀ x, Draws given (f x) items') :
    Draws given (p >>= f) items' := (forward hp).bind hf

end Draws

/-- How a reader goes on from a look at the token `t`: as it draws, or so after a step past `t`,
from which `taken` is drawn. -/
inductive DrawsOn (given : List Item) (items : α → List Item) (t : Token) : Parse α → Prop
  | stay {p} : Draws given p items → DrawsOn given items t p
  | pass {f : Unit → Parse α} {taken : List Item} : t.kind ≠ .mark .eof → Drawn taken [t] →
      Draws (given ++ taken) (f ()) items → DrawsOn given items t (liftM advance >>= f)

theorem advance_rest_of_inside {c : Cursor} (inside : c.current.kind ≠ .mark .eof) :
    c.rest = [c.current] ++ c.advance.rest := by
  obtain ⟨t, rest, same⟩ := List.exists_cons_of_ne_nil (Cursor.rest_ne_nil inside)
  simp [Cursor.advance_rest, Cursor.current, same]

namespace Draws

variable {given : List Item} {items : α → List Item}

theorem look {f : Token → Parse α} (h : ∀ t, DrawsOn given items t (f t)) :
    Draws given (liftM current >>= f) items := by
  intro r x r₁ same
  rw [outcome_current_bind] at same
  have goes := h r.cursor.current
  generalize f r.cursor.current = p at same goes
  cases goes with
  | stay h => exact h r x r₁ same
  | pass inside taken h =>
      rw [outcome_advance_bind] at same
      obtain ⟨passed, rest, drawn⟩ := h _ x r₁ same
      refine ⟨r.cursor.current :: passed, ?_, fun before start => ?_⟩
      · rw [advance_rest_of_inside inside, rest]
        rfl
      · rw [List.append_cons]
        exact drawn _ (start.append taken)

theorem failHere (problem : Kind → Problem) : Draws given (failHere problem : Parse α) items :=
  look fun _ => .stay (throw _)

/-- A word at the front of a statement, which has the line of the statement. -/
theorem expect {mark : Mark} (inside : mark ≠ .eof) :
    Draws given (expect (.mark mark)) fun t => given ++ [⟨.mark mark, some t.line⟩] := by
  refine look fun t => ?_
  split
  · next same =>
      have kind : t.kind ≠ .mark .eof := by simpa [same] using inside
      exact .pass kind (.single (Token.lexeme_of_kind same)) (pure rfl)
  · exact .stay (failHere _)

/-- A word that is passed without a place in the tree. -/
theorem takeIf {mark : Mark} (inside : mark ≠ .eof) {f : Bool → Parse α}
    (h : ∀ taken, Draws given (f taken) items) :
    Draws given (liftM (takeIf (.mark mark)) >>= f) items :=
  skip (forward_law.takeIf (by simpa using inside)) h

end Draws

/-! Expressions. -/

/-- The operators of the level are read at their own marks. -/
def Level.Marked (level : Level) : Prop := ∀ kind op, level kind = some op → kind = .mark op.mark

theorem marked_of_mem_levels : ∀ level ∈ Grammar.levels, Level.Marked level := by
  simp only [Grammar.levels, List.forall_mem_cons]
  refine ⟨?_, ?_, ?_, ?_, ?_, List.forall_mem_nil _⟩
  all_goals
    intro kind op same
    cases kind with
    | mark m => cases m <;> cases same <;> rfl
    | ident | number | text | flag => cases same

theorem draws_chainFrom {level : Level} {operand : Parse (Node Int)} (marked : level.Marked)
    (atEnd : level (.mark .eof) = none) (h : Draws [] operand Node.items) (ahead : List Token)
    (left : Node Int) :
    Draws left.items (chainFrom level operand ahead left) Node.items := by
  induction ahead generalizing left with
  | nil => exact .pure rfl
  | cons _ ahead ih =>
      refine .look fun t => ?_
      split
      · exact .stay (.pure rfl)
      · next op joins =>
          have sign := Token.lexeme_of_kind (marked _ op joins)
          refine .pass (Grammar.inside_of_joins atEnd joins) (.single sign) ?_
          refine (h.frame _).bind fun right => ?_
          rw [List.append_assoc]
          exact ih (.binary t.line left op right)

theorem draws_levels {unary : Parse (Node Int)} (h : Draws [] unary Node.items) {ls : List Level}
    (marked : ∀ level ∈ ls, level.Marked) (atEnd : ∀ level ∈ ls, level (.mark .eof) = none) :
    Draws [] (ls.foldr chain unary) Node.items := by
  induction ls with
  | nil => exact h
  | cons level ls ih =>
      rw [List.forall_mem_cons] at marked atEnd
      have operand := ih marked.2 atEnd.2
      refine operand.bind fun left => .skip (fun r => .refl r.cursor) fun ahead => ?_
      exact draws_chainFrom marked.1 atEnd.1 operand ahead left

theorem draws_atomWith {inner : Parse (Node Int)} (h : Draws [] inner Node.items) :
    Draws [] (atomWith inner) Node.items := by
  refine .look fun t => ?_
  split
  · next same => exact .pass (by simp [Token.kind, same, Lexeme.kind]) (.single same) (.pure rfl)
  · next same => exact .pass (by simp [Token.kind, same, Lexeme.kind]) (.single same) (.pure rfl)
  · next same => exact .pass (by simp [Token.kind, same, Lexeme.kind]) (.single same) (.pure rfl)
  · next same => exact .pass (by simp [Token.kind, same, Lexeme.kind]) (.single same) (.pure rfl)
  · next same =>
      refine .pass (by simp [Token.kind, same, Lexeme.kind]) (.nil [t]) ?_
      exact h.bind fun e => .takeIf (by decide) fun _ => .pure rfl
  · exact .stay (.failHere _)

theorem draws_unaryWith {operand inner : Parse (Node Int)} (ho : Draws [] operand Node.items)
    (hi : Draws [] inner Node.items) : Draws [] (unaryWith operand inner) Node.items := by
  refine .look fun t => ?_
  split
  · next op same =>
      have kind : t.kind = .mark op.mark := by
        unfold unaryOp? at same
        split at same <;> cases same <;> assumption
      have inside : t.kind ≠ .mark .eof := by
        rcases Grammar.kind_of_unaryOp same with kind | kind <;> simp [kind]
      refine .pass inside (.single (Token.lexeme_of_kind kind)) ?_
      exact (ho.frame _).bind fun e => .pure rfl
  · exact .stay (draws_atomWith hi)

theorem draws_expression_of {depth : Nat} (h : expressionCost ≤ depth →
      Draws [] (unary (depth - expressionCost)) Node.items) :
    Draws [] (expression depth) Node.items := by
  rw [expression]
  split
  · next enough => exact draws_levels (h enough) marked_of_mem_levels Grammar.level_eof
  · exact .throw _

theorem draws_unary (depth : Nat) : Draws [] (unary depth) Node.items := by
  induction depth using Nat.strongRecOn with
  | ind depth ih =>
      rw [Grammar.unary_eq]
      refine draws_unaryWith ?_ (draws_expression_of fun enough => ih _ ?_)
      · cases depth with
        | zero => exact .throw _
        | succ depth => exact ih depth (Nat.lt_succ_self depth)
      · simp only [expressionCost] at enough ⊢
        omega

theorem draws_expression (depth : Nat) : Draws [] (expression depth) Node.items :=
  draws_expression_of fun _ => draws_unary _

/-! Statements. -/

section

variable {expression : Parse (Node Int)} {block : List Kind → Parse (List (Node Int))}

theorem draws_declaration (h : Draws [] expression Node.items) :
    Draws [] (declaration expression) Node.items := by
  refine (Draws.expect (by decide)).bind fun start => .look fun t => ?_
  split
  · next name same =>
      refine .pass (by simp [Token.kind, same, Lexeme.kind]) (.lineless same) ?_
      refine .skip (forward_law.expect (by decide)) fun _ => ?_
      exact (h.frame _).bind fun e => .pure rfl
  · exact .stay (.failHere _)

theorem draws_assignment (h : Draws [] expression Node.items) :
    Draws [] (assignment expression) Node.items := by
  refine .look fun t => ?_
  split
  · next name same =>
      refine .pass (by simp [Token.kind, same, Lexeme.kind]) (.single same) (.look fun u => ?_)
      split
      · exact .stay (.failHere _)
      · next assign =>
          have kind : u.kind = .mark .assign := Decidable.not_not.mp assign
          refine .pass (by simp [kind]) (.nil [u]) ?_
          exact (h.frame _).bind fun e => .pure rfl
  · exact .stay (.failHere _)

theorem draws_printStatement (h : Draws [] expression Node.items) :
    Draws [] (printStatement expression) Node.items :=
  (Draws.expect (by decide)).bind fun _ => .takeIf (by decide) fun _ =>
    (h.frame _).bind fun _ => .pure rfl

theorem draws_debugStatement (h : Draws [] expression Node.items) :
    Draws [] (debugStatement expression) Node.items :=
  (Draws.expect (by decide)).bind fun _ => (h.frame _).bind fun _ => .pure rfl

theorem draws_condition (h : Draws [] expression Node.items) :
    Draws [] (condition expression) Node.items :=
  .takeIf (by decide) fun _ => h.bind fun _ => .takeIf (by decide) fun _ => .pure rfl

theorem draws_conditional (h : Draws [] expression Node.items)
    (hb : ∀ terminators, Draws [] (block terminators) Node.itemsAll) :
    Draws [] (conditional expression block) Node.items := by
  refine (Draws.expect (by decide)).bind fun start => ?_
  refine ((draws_condition h).frame _).bind fun test => ((hb _).frame _).bind fun yes => ?_
  refine .takeIf (by decide) fun isElse => ?_
  cases isElse with
  | true =>
      refine ((hb _).frame _).bind fun no => .takeIf (by decide) fun _ => .pure ?_
      simp [Node.items]
  | false =>
      refine .takeIf (by decide) fun _ => .pure ?_
      simp [Node.items]

theorem draws_repetition (h : Draws [] expression Node.items)
    (hb : ∀ terminators, Draws [] (block terminators) Node.itemsAll) :
    Draws [] (repetition expression block) Node.items := by
  refine (Draws.expect (by decide)).bind fun start => ?_
  refine ((draws_condition h).frame _).bind fun test => ((hb _).frame _).bind fun body => ?_
  refine .takeIf (by decide) fun _ => .pure ?_
  simp [Node.items]

theorem draws_statementWith (h : Draws [] expression Node.items)
    (hb : ∀ terminators, Draws [] (block terminators) Node.itemsAll) :
    Draws [] (statementWith expression block) Node.items := by
  refine .look fun t => ?_
  split
  · exact .stay (draws_declaration h)
  · exact .stay (draws_printStatement h)
  · exact .stay (draws_debugStatement h)
  · exact .stay (draws_conditional h hb)
  · exact .stay (draws_repetition h hb)
  · next same => exact .pass (by simp [same]) (.single (Token.lexeme_of_kind same)) (.pure rfl)
  · next same => exact .pass (by simp [same]) (.single (Token.lexeme_of_kind same)) (.pure rfl)
  · exact .stay (draws_assignment h)
  · exact .stay (.failHere _)

end

/-- A turn of a list draws the statement that it found, and passes whatever it gave up. -/
theorem turn_draws {statement : Parse (Node Int)} (forward : Forward statement)
    (h : Draws [] statement Node.items) (terminators : List Kind) (r : Reading) :
    ∃ passed, r.cursor.rest = passed ++ (turn statement terminators r).2.cursor.rest ∧
      Drawn (Node.itemsAll (turn statement terminators r).1.toList) passed := by
  have moves := forward.turn terminators r
  unfold turn at moves ⊢
  rcases given : outcome statement r with ⟨failure | node, r₁⟩ <;> rw [given] at moves
  · obtain ⟨passed, rest⟩ := moves.passed
    exact ⟨passed, rest, .nil passed⟩
  · obtain ⟨passed, rest, drawn⟩ := h r node r₁ given
    exact ⟨passed, rest, by simpa [Node.itemsAll] using drawn [] (.nil [])⟩

theorem itemsAll_append (nodes nodes' : List (Node Int)) :
    Node.itemsAll (nodes ++ nodes') = Node.itemsAll nodes ++ Node.itemsAll nodes' := by
  induction nodes with
  | nil => rfl
  | cons node nodes ih => simp only [List.cons_append, Node.itemsAll, ih, List.append_assoc]

theorem statementsFrom_draws {statement : Parse (Node Int)} (forward : Forward statement)
    (h : Draws [] statement Node.items) (terminators : List Kind) (ahead : List Token)
    (r : Reading) : ∃ passed,
      r.cursor.rest = passed ++
        ((statementsFrom statement terminators ahead).run r).2.cursor.rest ∧
      Drawn (Node.itemsAll ((statementsFrom statement terminators ahead).run r).1) passed := by
  induction ahead generalizing r with
  | nil => exact ⟨[], rfl, .nil []⟩
  | cons t ahead ih =>
      cases ends : endsAt terminators r.cursor.current with
      | true =>
          rw [run_statementsFrom_end ends]
          exact ⟨[], rfl, .nil []⟩
      | false =>
          obtain ⟨passed, rest, drawn⟩ := turn_draws forward h terminators r
          obtain ⟨passed', rest', drawn'⟩ := ih (turn statement terminators r).2
          rw [run_statementsFrom_turn ends]
          refine ⟨passed ++ passed', ?_, ?_⟩
          · rw [rest, rest', List.append_assoc]
          · rw [itemsAll_append]
            exact drawn.append drawn'

theorem draws_statement (depth : Nat) : Draws [] (statement depth) Node.items := by
  induction depth using Nat.strongRecOn with
  | ind depth ih =>
      rw [statement_eq]
      refine draws_statementWith (draws_expression depth) fun terminators => ?_
      rw [block]
      split
      · next enough =>
          have smaller : depth - blockCost < depth := by
            simp only [blockCost] at enough ⊢
            omega
          intro r nodes r₁ same
          obtain ⟨passed, rest, drawn⟩ := statementsFrom_draws (forward_law.statement _)
            (ih _ smaller) terminators r.cursor.rest r
          rw [outcome_liftM] at same
          cases same
          exact ⟨passed, rest, fun before _ =>
            drawn.mono (List.sublist_append_right before passed)⟩
      · exact .throw _

theorem ofTokens_rest_sublist (tokens : List Token) :
    (Cursor.ofTokens tokens).rest.Sublist tokens := by
  unfold Cursor.ofTokens
  split
  · split
    · exact List.dropLast_sublist tokens
    · exact List.Sublist.refl tokens
  · exact List.nil_sublist tokens

theorem drawn_parse (tokens : List Token) :
    Drawn (Node.itemsAll (parse tokens).statements) tokens := by
  obtain ⟨passed, rest, drawn⟩ := statementsFrom_draws (forward_law.statement depthLimit)
    (draws_statement depthLimit) [] (Reading.ofTokens tokens).cursor.rest (.ofTokens tokens)
  have front : passed.Sublist (Reading.ofTokens tokens).cursor.rest := by
    rw [rest]
    exact List.sublist_append_left passed _
  exact drawn.mono (front.trans (ofTokens_rest_sublist tokens))

end Parse

/-- What is read is a program, and what it stands for are tokens of the list, each at a later place
than the one before it and on the line of its node. -/
theorem parse_items (tokens : List Token) : (∀ s ∈ (parse tokens).statements, s.IsStatement) ∧
    ∃ place : Fin (Node.itemsAll (parse tokens).statements).length → Fin tokens.length,
      StrictMono place ∧ ∀ i,
        ((Node.itemsAll (parse tokens).statements).get i).Fits (tokens.get (place i)) :=
  ⟨parse_isStatement tokens, (Parse.drawn_parse tokens).places⟩

end SlangScript
