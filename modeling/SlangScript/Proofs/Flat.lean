import SlangScript.Proofs.Grammar.Expression
import SlangScript.Proofs.Grammar.Printed
import SlangScript.Proofs.Run.Meaning
import SlangScript.Proofs.Run.Untag

/-!
Flat expressions: names and literals with operators in between, and neither parentheses nor unary
operators. Their tree leans to the right only where an operator is tighter than the one before it,
which it can be five times, so however long such an expression is, it is read and evaluated within a
fixed depth. With operators of one level only it is evaluated from the left to the right.
-/

namespace SlangScript

/-- A literal or a name. -/
inductive Operand where
  | number (value : Float)
  | text (value : String)
  | flag (value : Bool)
  | var (name : String)

namespace Operand

def lexeme : Operand → Lexeme
  | .number value => .number value
  | .text value => .text value
  | .flag value => .flag value
  | .var name => .ident name

def node : Operand → Node Unit
  | .number value => .number () value
  | .text value => .text () value
  | .flag value => .flag () value
  | .var name => .var () name

/-- What an operand stands for. -/
def value (store : Store) : Operand → Value
  | .number value => .number value
  | .text value => .text value
  | .flag value => .flag value
  | .var name => store.lookup name

theorem meaning_node (store : Store) (operand : Operand) :
    meaning store operand.node = .ok (operand.value store) := by
  cases operand <;> rfl

end Operand

/-- An operator with the operand behind it. -/
abbrev Link : Type := BinaryOp × Operand

/-- The lexemes of an operand and of the links behind it. -/
def flatLexemes (first : Operand) (links : List Link) : List Lexeme :=
  first.lexeme :: links.flatMap fun (op, operand) => [.mark op.mark, operand.lexeme]

namespace Node

/-- An expression with a link behind it. The operator takes the whole expression for its left operand,
or what stands behind the last operators that are looser. -/
def attach : Node Unit → Link → Node Unit
  | .binary _ left op right, link =>
    if op.level < link.1.level then .binary () left op (right.attach link)
    else .binary () (.binary () left op right) link.1 link.2.node
  | node, link => .binary () node link.1 link.2.node

/-- The tree of a flat expression. -/
inductive IsFlat : Node Unit → Prop
  | operand (operand : Operand) : IsFlat operand.node
  | binary {left right : Node Unit} {op : BinaryOp} (known : op ∈ BinaryOp.known)
      (hl : IsFlat left) (hr : IsFlat right) (loose : op.level ≤ left.level)
      (tight : op.level < right.level) : IsFlat (.binary () left op right)

theorem attach_operand (operand : Operand) (link : Link) :
    operand.node.attach link = .binary () operand.node link.1 link.2.node := by
  cases operand <;> rfl

theorem level_operand (operand : Operand) : operand.node.level = 5 := by cases operand <;> rfl

theorem level_attach {e : Node Unit} (h : e.IsFlat) {link : Link}
    (known : link.1 ∈ BinaryOp.known) : (e.attach link).level = min e.level link.1.level := by
  have tight := Grammar.level_le known
  cases h with
  | operand operand =>
      rw [attach_operand, level_operand, level]
      exact (Nat.min_eq_right (by omega)).symm
  | binary =>
      rw [attach]
      split
      · next looser => exact (Nat.min_eq_left (Nat.le_of_lt looser)).symm
      · next tighter => exact (Nat.min_eq_right (Nat.le_of_not_lt tighter)).symm

theorem IsFlat.attach {e : Node Unit} (h : e.IsFlat) {link : Link}
    (known : link.1 ∈ BinaryOp.known) : (e.attach link).IsFlat := by
  have tight (operand : Operand) : link.1.level < operand.node.level := by
    rw [level_operand]
    exact Grammar.level_le known
  induction h with
  | operand operand =>
      rw [attach_operand]
      exact .binary known (.operand _) (.operand _) (Nat.le_of_lt (tight _)) (tight _)
  | binary known' hl hr loose tight' _ ih =>
      rw [Node.attach]
      split
      · next looser =>
          refine .binary known' hl ih loose ?_
          rw [level_attach hr known]
          exact Nat.lt_min.mpr ⟨tight', looser⟩
      · next tighter =>
          exact .binary known (.binary known' hl hr loose tight') (.operand _)
            (Nat.le_of_not_lt tighter) (tight _)

theorem IsFlat.isExpression {e : Node Unit} (h : e.IsFlat) : e.IsExpression := by
  induction h with
  | operand operand =>
      cases operand with
      | number => exact .number () _
      | text => exact .text () _
      | flag => exact .flag () _
      | var => exact .var () _
  | binary known _ _ _ _ ihl ihr => exact .binary known ihl ihr

theorem lexemes_operand (operand : Operand) : operand.node.lexemes = [operand.lexeme] := by
  cases operand <;> rfl

/-- Neither operand of a flat expression needs parentheses. -/
theorem lexemes_flat {left right : Node Unit} {op : BinaryOp} (loose : op.level ≤ left.level)
    (tight : op.level < right.level) :
    (binary () left op right).lexemes = left.lexemes ++ .mark op.mark :: right.lexemes := by
  rw [lexemes, decide_eq_false (Nat.not_lt.mpr loose), decide_eq_false (Nat.not_le.mpr tight)]
  rfl

theorem lexemes_attach {e : Node Unit} (h : e.IsFlat) {link : Link}
    (known : link.1 ∈ BinaryOp.known) :
    (e.attach link).lexemes = e.lexemes ++ [.mark link.1.mark, link.2.lexeme] := by
  have tight : link.1.level < link.2.node.level := by
    rw [level_operand]
    exact Grammar.level_le known
  induction h with
  | operand operand =>
      have loose : link.1.level ≤ operand.node.level := by
        rw [level_operand] at tight ⊢
        exact Nat.le_of_lt tight
      rw [attach_operand, lexemes_flat loose tight, lexemes_operand, lexemes_operand]
  | @binary left right op known' hl hr loose tight' _ ih =>
      rw [attach]
      split
      · next looser =>
          have tight'' : op.level < (right.attach link).level := by
            rw [level_attach hr known]
            exact Nat.lt_min.mpr ⟨tight', looser⟩
          rw [lexemes_flat loose tight'', ih, lexemes_flat loose tight', List.append_assoc,
            List.cons_append]
      · next tighter =>
          have loose' : link.1.level ≤ (binary () left op right).level := Nat.le_of_not_lt tighter
          rw [lexemes_flat loose' tight, lexemes_operand]

theorem IsFlat.nesting_eq {e : Node Unit} (h : e.IsFlat) : e.nesting = 0 := by
  induction h with
  | operand operand => cases operand <;> rfl
  | binary _ _ _ loose tight ihl ihr =>
      rw [nesting, ihl, ihr, decide_eq_false (Nat.not_lt.mpr loose),
        decide_eq_false (Nat.not_le.mpr tight)]
      rfl

/-- From each level to the next tighter one evaluation goes down once. -/
theorem IsFlat.evaluationDepth_le {e : Node Unit} (h : e.IsFlat) :
    e.evaluationDepth + e.level ≤ 6 := by
  induction h with
  | operand operand => cases operand <;> exact Nat.le_refl _
  | @binary left right op known _ _ loose tight ihl ihr =>
      have inside := Grammar.level_le known
      have onLeft := left.chainCost_le_one
      have onTop : left.level = 5 ∨ left.chainCost = 0 := by
        cases left with
        | binary => exact .inr rfl
        | _ => exact .inl rfl
      rw [evaluationDepth, level]
      omega

/-- The tree of an operand and the links behind it. -/
def ofLinks (first : Operand) (links : List Link) : Node Unit := links.foldl attach first.node

theorem ofLinks_spec (first : Operand) {links : List Link}
    (known : ∀ link ∈ links, link.1 ∈ BinaryOp.known) :
    (ofLinks first links).IsFlat ∧ (ofLinks first links).lexemes = flatLexemes first links := by
  suffices whole : ∀ e : Node Unit, e.IsFlat → (links.foldl attach e).IsFlat ∧
      (links.foldl attach e).lexemes =
        e.lexemes ++ links.flatMap fun (op, operand) => [.mark op.mark, operand.lexeme] by
    have start := whole first.node (.operand first)
    rwa [lexemes_operand] at start
  induction links with
  | nil => exact fun e flat => ⟨flat, (List.append_nil _).symm⟩
  | cons link links ih =>
      obtain ⟨here, behind⟩ := List.forall_mem_cons.mp known
      intro e flat
      obtain ⟨flat', lexemes⟩ := ih behind (e.attach link) (flat.attach here)
      refine ⟨flat', ?_⟩
      rw [List.foldl_cons, lexemes, lexemes_attach flat here, List.append_assoc]
      rfl

end Node

namespace Value

/-- Operators and their right operands applied to a value, from the left to the right. -/
def through (first : Value) (links : List (BinaryOp × Value)) : Except OperationError Value :=
  links.foldlM (fun value (op, other) => value.binary op other) first

/-- Values that are added to one. -/
def plus (first : Value) (others : List Value) : Except OperationError Value :=
  first.through (others.map fun other => (.add, other))

theorem through_append (first : Value) (links links' : List (BinaryOp × Value)) :
    first.through (links ++ links') = first.through links >>= fun value => value.through links' :=
  List.foldlM_append

theorem plus_cons (first other : Value) (others : List Value) :
    first.plus (other :: others) = first.add other >>= fun value => value.plus others := rfl

theorem plus_append (first : Value) (others others' : List Value) :
    first.plus (others ++ others') = first.plus others >>= fun value => value.plus others' := by
  rw [plus, List.map_append, through_append]
  rfl

/-- Whether a value is no text. -/
def Plain (v : Value) : Prop := ∀ s, v ≠ .text s

theorem Plain.add {v w : Value} (hv : v.Plain) (hw : w.Plain) :
    ∃ sum, v.add w = .ok (.number sum) := by
  cases v with
  | text s => exact absurd rfl (hv s)
  | number | flag =>
      cases w with
      | text s => exact absurd rfl (hw s)
      | number | flag => exact ⟨_, rfl⟩

/-- Numbers and truth values have a sum. -/
theorem Plain.plus {first : Value} (h : first.Plain) {others : List Value}
    (plain : ∀ v ∈ others, v.Plain) : ∃ sum, first.plus others = .ok sum ∧ sum.Plain := by
  induction others generalizing first with
  | nil => exact ⟨first, rfl, h⟩
  | cons other others ih =>
      obtain ⟨here, behind⟩ := List.forall_mem_cons.mp plain
      obtain ⟨x, added⟩ := h.add here
      have number : (Value.number x).Plain := nofun
      obtain ⟨sum, same, plain⟩ := ih number behind
      exact ⟨sum, by rw [plus_cons, added]; exact same, plain⟩

theorem add_text (v : Value) (s : String) : v.add (.text s) = .ok (.text (v.printed ++ s)) := by
  cases v <;> rfl

/-- Behind a text everything is joined to it as a text. -/
theorem plus_text (s : String) (others : List Value) :
    (Value.text s).plus others = .ok (.text (s ++ String.join (others.map printed))) := by
  induction others generalizing s with
  | nil =>
      rw [List.map_nil, String.join_nil, String.append_empty]
      rfl
  | cons other others ih =>
      rw [List.map_cons, String.join_cons, ← String.append_assoc]
      exact ih (s ++ other.printed)

end Value

theorem ofOperation_bind (result : Except OperationError Value)
    (f : Value → Except OperationError Value) :
    ofOperation (result >>= f) = ofOperation result >>= fun value => ofOperation (f value) := by
  cases result <;> rfl

/-- The links of an expression with the values of their operands. -/
def Link.values (store : Store) (links : List Link) : List (BinaryOp × Value) :=
  links.map fun (op, operand) => (op, operand.value store)

theorem Node.attach_of_le {e : Node Unit} {link : Link} (loose : link.1.level ≤ e.level) :
    e.attach link = .binary () e link.1 link.2.node := by
  cases e with
  | binary tag left op right => exact if_neg (Nat.not_lt.mpr loose)
  | _ => rfl

theorem BinaryOp.level_le_five (op : BinaryOp) : op.level ≤ 5 := by
  cases op <;> simp [level]

/-- Links of one level apply in the order in which they stand. -/
theorem meaning_ofLinks (store : Store) (first : Operand) {links : List Link} {k : Nat}
    (level : ∀ link ∈ links, link.1.level = k) :
    meaning store (Node.ofLinks first links) =
      ofOperation ((first.value store).through (Link.values store links)) := by
  suffices whole : ∀ e : Node Unit, (∀ link ∈ links, link.1.level ≤ e.level) →
      meaning store (links.foldl Node.attach e) =
        meaning store e >>= fun value => ofOperation (value.through (Link.values store links)) by
    have start := whole first.node fun link _ => by
      rw [Node.level_operand]
      exact link.1.level_le_five
    rwa [Operand.meaning_node] at start
  induction links with
  | nil =>
      intro e _
      rw [List.foldl_nil]
      cases meaning store e <;> rfl
  | cons link links ih =>
      obtain ⟨here, behind⟩ := List.forall_mem_cons.mp level
      intro e loose
      have next := ih behind (.binary () e link.1 link.2.node) fun other member =>
        Nat.le_of_eq ((behind other member).trans here.symm)
      rw [List.foldl_cons, Node.attach_of_le (loose link (.head _)), next, meaning,
        Operand.meaning_node, bind_assoc]
      refine bind_congr fun value => ?_
      exact (ofOperation_bind _ _).symm

/-- A depth at which every flat expression is evaluated. -/
def flatDepth : Nat := 6

theorem evaluate_flat (store : Store) {e : Node Unit} (flat : e.IsFlat) {depth : Nat}
    (enough : flatDepth ≤ depth) : evaluate store depth e = meaning store e := by
  unfold flatDepth at enough
  have deep := flat.evaluationDepth_le
  exact (evaluate_depthAside store depth e).resolve_right fun short => by omega

/-- A flat expression is read and evaluated however long it is, with any mix of operators, at every
depth from a fixed one on. With operators of one level it is evaluated from the left to the right;
and a chain of sums adds up to its first text and joins what comes from there on. -/
theorem flat_expression (first : Operand) (links : List Link)
    (known : ∀ link ∈ links, link.1 ∈ BinaryOp.known) {tokens : List Token}
    (spelled : tokens.map Token.lexeme = flatLexemes first links) :
    ∃ e : Node Int,
      (∀ depth, Parse.expressionCost ≤ depth → ∀ rest, Grammar.Stops Grammar.levels rest →
        Parse.Reads (Parse.expression depth) (tokens ++ rest) e rest) ∧
      ∀ (store : Store) (depth : Nat), flatDepth ≤ depth →
        evaluate store depth e ≠ .error .tooDeep ∧
        (∀ k, (∀ link ∈ links, link.1.level = k) → evaluate store depth e =
          ofOperation ((first.value store).through (Link.values store links))) ∧
        ((∀ link ∈ links, link.1 = .add) → ∀ v vs s later,
          (first :: links.map Prod.snd).map (Operand.value store) = v :: vs ++ .text s :: later →
          (∀ w ∈ v :: vs, w.Plain) → ∃ sum, v.plus vs = .ok sum ∧ evaluate store depth e =
            .ok (.text (sum.printed ++ String.join ((.text s :: later).map Value.printed)))) := by
  obtain ⟨flat, lexemes⟩ := Node.ofLinks_spec first known
  obtain ⟨e, erased, derived⟩ := Grammar.printed_whole flat.isExpression (spelled.trans lexemes.symm)
  rw [flat.nesting_eq] at derived
  have valued {store : Store} {depth : Nat} (enough : flatDepth ≤ depth) :
      evaluate store depth e = meaning store (Node.ofLinks first links) := by
    rw [← evaluate_untag, erased, evaluate_untag, evaluate_flat store flat enough]
  have ordered {store : Store} {depth k : Nat} (enough : flatDepth ≤ depth)
      (level : ∀ link ∈ links, link.1.level = k) : evaluate store depth e =
        ofOperation ((first.value store).through (Link.values store links)) :=
    (valued enough).trans (meaning_ofLinks store first level)
  refine ⟨e, fun depth enough rest stops => ?_, fun store depth enough => ⟨?_, ?_, ?_⟩⟩
  · exact Grammar.reads_expression (derived.derived rest) (by omega) stops
  · rw [valued enough]
    exact fun same => meaning_refuses store _ _ same rfl
  · exact fun k level => ordered enough level
  · intro sums v vs s later values plain
    rw [List.map_cons, List.cons_append] at values
    obtain ⟨rfl, behind⟩ := List.cons.inj values
    obtain ⟨here, plain⟩ := List.forall_mem_cons.mp plain
    obtain ⟨sum, added, _⟩ := here.plus plain
    have links_eq : Link.values store links =
        (vs ++ .text s :: later).map fun other => (.add, other) := by
      rw [← behind, List.map_map, List.map_map]
      exact List.map_congr_left fun link member => Prod.ext (sums link member) rfl
    refine ⟨sum, added, ?_⟩
    rw [ordered enough fun link member => congrArg BinaryOp.level (sums link member), links_eq]
    change ofOperation ((first.value store).plus (vs ++ .text s :: later)) = _
    rw [Value.plus_append, added]
    change ofOperation (sum.plus (.text s :: later)) = _
    rw [Value.plus_cons, Value.add_text]
    change ofOperation ((Value.text _).plus later) = _
    rw [Value.plus_text, List.map_cons, String.join_cons, String.append_assoc]
    rfl

/-- A name without a value, a number, a text and a truth value, added. -/
theorem flat_expression_joined :
    ∃ e : Node Int,
      Parse.Reads (Parse.expression 13) [⟨.ident "x", 1, 1⟩, ⟨.mark .plus, 1, 3⟩, ⟨.number 2, 1, 5⟩,
        ⟨.mark .plus, 1, 7⟩, ⟨.text "a", 1, 9⟩, ⟨.mark .plus, 1, 13⟩, ⟨.flag true, 1, 15⟩,
        ⟨.mark .eof, 1, 19⟩] e [⟨.mark .eof, 1, 19⟩] ∧
      evaluate {} flatDepth e = .ok (.text "2aong_no_cap") := by
  have spelled : List.map Token.lexeme [⟨.ident "x", 1, 1⟩, ⟨.mark .plus, 1, 3⟩, ⟨.number 2, 1, 5⟩,
      ⟨.mark .plus, 1, 7⟩, ⟨.text "a", 1, 9⟩, ⟨.mark .plus, 1, 13⟩, ⟨.flag true, 1, 15⟩] =
    flatLexemes (.var "x") [(.add, .number 2), (.add, .text "a"), (.add, .flag true)] := rfl
  obtain ⟨e, reads, values⟩ := flat_expression _ _ (by decide) spelled
  refine ⟨e, reads 13 (by decide) _ (Grammar.stops_cons.mpr Grammar.level_eof), ?_⟩
  obtain ⟨sum, added, value⟩ := (values {} flatDepth (Nat.le_refl _)).2.2 (by decide) (.number 0)
    [.number 2] "a" [.flag true] rfl (by simp [Value.Plain])
  obtain rfl : .number (0 + 2) = sum := Except.ok.inj added
  have shown : (Value.number (0 + 2)).printed = "2" := by decide +kernel
  rw [value, shown]
  rfl

end SlangScript
