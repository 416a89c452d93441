import SlangScript.Proofs.Run.Law
import SlangScript.Proofs.Run.Rounds

/-!
The names of a program are all of the store that matters to it. Stores in which these names count as
the same, bound or not, lead to the same run and to such stores again; and a run binds no name but
those that the program declares or assigns to, and unbinds none.
-/

namespace SlangScript

variable {ι α β : Type}

namespace Node

mutual

/-- The names that occur in the tree, read or bound. -/
def names : Node ι → List String
  | .number .. | .text .. | .flag .. => []
  | .var _ name => [name]
  | .binary _ left _ right => names left ++ names right
  | .unary _ _ operand => names operand
  | .declare _ name value | .assign _ name value => name :: names value
  | .print _ value | .debugPrint _ value => names value
  | .ifThen _ condition body => names condition ++ namesAll body
  | .ifElse _ condition yes no => names condition ++ (namesAll yes ++ namesAll no)
  | .whileDo _ condition body => names condition ++ namesAll body
  | .breakOut _ | .continueOn _ | .bare _ | .missing => []

def namesAll : List (Node ι) → List String
  | [] => []
  | s :: rest => names s ++ namesAll rest

end

mutual

/-- The names that the statement declares or assigns to. -/
def targets : Node ι → List String
  | .declare _ name _ | .assign _ name _ => [name]
  | .ifThen _ _ body => targetsAll body
  | .ifElse _ _ yes no => targetsAll yes ++ targetsAll no
  | .whileDo _ _ body => targetsAll body
  | _ => []

def targetsAll : List (Node ι) → List String
  | [] => []
  | s :: rest => targets s ++ targetsAll rest

end

theorem namesAll_subset_iff {nodes : List (Node ι)} {names : List String} :
    namesAll nodes ⊆ names ↔ ∀ s ∈ nodes, s.names ⊆ names := by
  induction nodes with
  | nil => simp [namesAll]
  | cons s rest ih => simp [namesAll, List.append_subset, ih]

theorem targetsAll_subset_iff {nodes : List (Node ι)} {names : List String} :
    targetsAll nodes ⊆ names ↔ ∀ s ∈ nodes, s.targets ⊆ names := by
  induction nodes with
  | nil => simp [targetsAll]
  | cons s rest ih => simp [targetsAll, List.append_subset, ih]

end Node

theorem Store.lookup_bind (s : Store) (name other : String) (value : Value) :
    (s.bind name value).lookup other = if other = name then value else s.lookup other := by
  rw [lookup, get?_bind]
  split <;> rfl

theorem foldlM_congr {ε : Type} {f f' : β → α → Except ε β} {items : List α}
    (h : ∀ item ∈ items, ∀ b, f b item = f' b item) (start : β) :
    items.foldlM f start = items.foldlM f' start := by
  induction items generalizing start with
  | nil => rfl
  | cons item items ih =>
      obtain ⟨first, others⟩ := List.forall_mem_cons.mp h
      rw [List.foldlM_cons, List.foldlM_cons, first start]
      exact congrArg _ (funext fun next => ih others next)

/-- The value of an expression depends on the names in it only. -/
theorem evaluate_congr {s s' : Store} {names : List String}
    (same : ∀ name ∈ names, s.lookup name = s'.lookup name) (depth : Nat) {node : Node ι}
    (h : node.names ⊆ names) : evaluate s depth node = evaluate s' depth node := by
  induction depth generalizing node with
  | zero => rfl
  | succ depth ih =>
      cases node with
      | var tag name => exact congrArg Except.ok (same name (h List.mem_cons_self))
      | unary tag op operand =>
          rw [Node.names] at h
          rw [evaluate, evaluate, ih h]
      | binary tag left op right =>
          have spine := @Node.forall_spine ι (·.names ⊆ names) (·.2.names ⊆ names)
            (fun inside => List.append_subset.mp inside) _ h [] (List.forall_mem_nil _)
          rw [evaluate, evaluate]
          generalize (Node.binary tag left op right).spine [] = chain at spine ⊢
          obtain ⟨first, later⟩ := chain
          change (evaluate s depth first >>= _) = (evaluate s' depth first >>= _)
          rw [ih spine.1]
          refine congrArg _ (funext fun value => foldlM_congr (fun entry member left => ?_) value)
          change (evaluate s depth entry.2 >>= _) = (evaluate s' depth entry.2 >>= _)
          rw [ih (spine.2 entry member)]
      | _ => rfl

namespace Machine

/-- The names count as the same on both machines, which are the same in all but their stores. -/
structure Agree (names : List String) (m m' : Machine) : Prop where
  lookup : ∀ name ∈ names, m.store.lookup name = m'.store.lookup name
  out : m.out = m'.out
  err : m.err = m'.err
  steps : m.steps = m'.steps
  cap : m.cap = m'.cap

/-- On machines that agree the action has the same result, and leaves machines that agree. -/
def Respects (names : List String) (p : Run α) : Prop := Together (Agree names) p

namespace Respects

variable {names : List String}

theorem countStep : Respects names countStep := by
  intro m m' h
  rcases capped : m.cap with _ | cap
  · exact ⟨_, m, m', outcome_countStep_none capped,
      outcome_countStep_none (h.cap ▸ capped), h⟩
  · have counted := outcome_countStep_some (h.cap ▸ capped)
    rw [← h.steps] at counted
    exact ⟨_, _, _, outcome_countStep_some capped, counted, { h with steps := rfl }⟩

theorem printLine (line : String) : Respects names (printLine line) :=
  fun _ _ h => ⟨_, _, _, rfl, rfl, { h with out := congrArg (· ++ line ++ "\n") h.out }⟩

theorem noteLine (line : String) : Respects names (noteLine line) :=
  fun _ _ h => ⟨_, _, _, rfl, rfl, { h with err := congrArg (· ++ line ++ "\n") h.err }⟩

theorem valueOf {e : Node ι} (h : e.names ⊆ names) (depth : Nat) :
    Respects names (valueOf depth e) := by
  intro m m' agree
  refine ⟨_, m, m', rfl, ?_, agree⟩
  rw [evaluate_congr agree.lookup depth h]
  rfl

theorem bindTo {e : Node ι} (h : e.names ⊆ names) (depth : Nat) (name : String) :
    Respects names (bindTo depth name e) := by
  refine Together.bind (valueOf h depth) fun value m m' agree => ⟨_, _, _, rfl, rfl, ?_⟩
  have lookup (other : String) (member : other ∈ names) :
      (m.store.bind name value).lookup other = (m'.store.bind name value).lookup other := by
    rw [Store.lookup_bind, Store.lookup_bind, agree.lookup other member]
  exact { agree with lookup }

end Respects

theorem respects_passing (names : List String) : Passing (Respects names) where
  pure := Together.pure
  tooDeep := Together.throw _
  unfinished := Together.throw _
  countStep := Respects.countStep
  noteLine := Respects.noteLine
  bind := Together.bind
  tryCatch hp deep passes := by
    refine Together.tryCatch hp fun fault => ?_
    by_cases nested : fault = .tooDeep
    · exact nested ▸ deep
    · exact passes fault nested ▸ Together.throw fault

theorem respects_covers (names : List String) :
    Covers (Respects names) (fun e : Node ι => e.names ⊆ names) fun s => s.names ⊆ names where
  value h depth := Respects.valueOf h depth
  act {s} h _ depth := by
    cases s with
    | declare tag name value | assign tag name value =>
        exact Together.bind (Respects.bindTo (List.cons_subset.mp h).2 depth name) fun _ => .pure _
    | print tag value =>
        have value : value.names ⊆ names := h
        exact Together.bind (Respects.valueOf value depth) fun _ =>
          Together.bind (Respects.printLine _) fun _ => .pure _
    | debugPrint tag value =>
        have value : value.names ⊆ names := h
        exact Together.bind (Respects.valueOf value depth) fun _ =>
          Together.bind (Respects.noteLine _) fun _ => .pure _
    | breakOut | continueOn => exact Together.pure _
    | _ => exact Together.throw _
  ifThen h := by
    rw [Node.names, List.append_subset, Node.namesAll_subset_iff] at h
    exact h
  ifElse h := by
    rw [Node.names, List.append_subset, List.append_subset, Node.namesAll_subset_iff,
      Node.namesAll_subset_iff] at h
    exact h
  whileDo h := by
    rw [Node.names, List.append_subset, Node.namesAll_subset_iff] at h
    exact h

/-- From the machine `m` to `m'` no name is bound anew but those given, and none is unbound. -/
structure Binds (names : List String) (m m' : Machine) : Prop where
  others : ∀ name ∉ names, m'.store.get? name = m.store.get? name
  bound : ∀ name, m.store.get? name ≠ none → m'.store.get? name ≠ none

theorem Binds.trans {names : List String} {m m₁ m₂ : Machine} (h : Binds names m m₁)
    (h' : Binds names m₁ m₂) : Binds names m m₂ :=
  ⟨fun name other => (h'.others name other).trans (h.others name other),
    fun name bound => h'.bound name (h.bound name bound)⟩

theorem binds_of_store {names : List String} {m m' : Machine} (h : m'.store = m.store) :
    Binds names m m' :=
  ⟨fun _ _ => by rw [h], fun _ bound => by rwa [h]⟩

/-- The action binds no name but those given, and unbinds none. -/
def BindsOnly (names : List String) (p : Run α) : Prop := Along (Binds names) p

namespace BindsOnly

variable {names : List String}

theorem of_store {p : Run α} (h : ∀ m, (outcome p m).2.store = m.store) : BindsOnly names p :=
  fun m => binds_of_store (h m)

theorem bind {p : Run α} {f : α → Run β} (hp : BindsOnly names p)
    (hf : ∀ a, BindsOnly names (f a)) : BindsOnly names (p >>= f) :=
  Along.bind hp hf fun _ _ _ => Binds.trans

theorem countStep : BindsOnly names countStep := by
  refine of_store fun m => ?_
  rcases capped : m.cap with _ | cap
  · rw [outcome_countStep_none capped]
  · rw [outcome_countStep_some capped]

theorem bindTo {name : String} (member : name ∈ names) (depth : Nat) (e : Node ι) :
    BindsOnly names (bindTo depth name e) := by
  have value : BindsOnly names (valueOf depth e) := of_store fun _ => rfl
  refine bind value fun value m => ⟨fun other outside => ?_, fun other bound => ?_⟩
  · change (m.store.bind name value).get? other = m.store.get? other
    rw [Store.get?_bind, if_neg fun same : other = name => outside (same ▸ member)]
  · change (m.store.bind name value).get? other ≠ none
    rw [Store.get?_bind]
    split
    · exact Option.some_ne_none value
    · exact bound

end BindsOnly

theorem bindsOnly_passing (names : List String) : Passing (BindsOnly names) where
  pure _ := .of_store fun _ => rfl
  tooDeep := .of_store fun _ => rfl
  unfinished := .of_store fun _ => rfl
  countStep := .countStep
  noteLine _ := .of_store fun _ => rfl
  bind := .bind
  tryCatch hp deep passes := by
    refine Along.tryCatch hp (fun fault => ?_) fun _ _ _ => Binds.trans
    by_cases nested : fault = .tooDeep
    · exact nested ▸ deep
    · exact passes fault nested ▸ BindsOnly.of_store fun _ => rfl

theorem bindsOnly_covers (names : List String) :
    Covers (BindsOnly names) (fun _ : Node ι => True) fun s => s.targets ⊆ names where
  value _ _ := .of_store fun _ => rfl
  act {s} h _ depth := by
    cases s with
    | declare tag name value | assign tag name value =>
        exact BindsOnly.bind (BindsOnly.bindTo (h List.mem_cons_self) depth value)
          fun _ => BindsOnly.of_store fun _ => rfl
    | print tag value =>
        have value : BindsOnly names (valueOf depth value) := .of_store fun _ => rfl
        exact BindsOnly.bind value fun _ => BindsOnly.of_store fun _ => rfl
    | debugPrint tag value =>
        have value : BindsOnly names (valueOf depth value) := .of_store fun _ => rfl
        exact BindsOnly.bind value fun _ => BindsOnly.of_store fun _ => rfl
    | _ => exact .of_store fun _ => rfl
  ifThen h := ⟨trivial, Node.targetsAll_subset_iff.mp h⟩
  ifElse h := by
    rw [Node.targets, List.append_subset, Node.targetsAll_subset_iff,
      Node.targetsAll_subset_iff] at h
    exact ⟨trivial, h⟩
  whileDo h := ⟨trivial, Node.targetsAll_subset_iff.mp h⟩

theorem execute_names {program : List (Node ι)} {m m' : Machine}
    (same : Agree (Node.namesAll program) m m') (rounds : Nat) :
    ∃ result m₁ m₁', outcome (execute rounds program) m = (result, m₁) ∧
      outcome (execute rounds program) m' = (result, m₁') ∧
      Agree (Node.namesAll program) m₁ m₁' ∧
      Binds (Node.targetsAll program) m m₁ ∧ Binds (Node.targetsAll program) m' m₁' := by
  have respects := (respects_passing _).execute (respects_covers (Node.namesAll program)) rounds
    (Node.namesAll_subset_iff.mp (List.Subset.refl _))
  have binds := (bindsOnly_passing _).execute (bindsOnly_covers (Node.targetsAll program)) rounds
    (Node.targetsAll_subset_iff.mp (List.Subset.refl _))
  obtain ⟨result, m₁, m₁', first, second, agree⟩ := respects m m' same
  have left := binds m
  have right := binds m'
  rw [first] at left
  rw [second] at right
  exact ⟨result, m₁, m₁', first, second, agree, left, right⟩

/-- On machines on which the names of a program count as the same, bound or not, the program has the
same result with every number of rounds, prints the same and takes as many steps, and its names
count as the same afterwards; so it ends on both or on none. Neither run binds a name that the
program does not declare or assign to, and neither unbinds one. -/
theorem run_names {program : List (Node ι)} {m m' : Machine}
    (same : Agree (Node.namesAll program) m m') :
    (∀ rounds, ∃ result m₁ m₁', outcome (execute rounds program) m = (result, m₁) ∧
      outcome (execute rounds program) m' = (result, m₁') ∧
      Agree (Node.namesAll program) m₁ m₁' ∧
      Binds (Node.targetsAll program) m m₁ ∧ Binds (Node.targetsAll program) m' m₁') ∧
    ∀ result m₁, m.Ends program result m₁ → ∃ m₁', m'.Ends program result m₁' ∧
      Agree (Node.namesAll program) m₁ m₁' ∧
      Binds (Node.targetsAll program) m m₁ ∧ Binds (Node.targetsAll program) m' m₁' := by
  refine ⟨execute_names same, ?_⟩
  rintro result m₁ ⟨finished, rounds, given⟩
  obtain ⟨result', m₂, m₁', first, second, kept⟩ := execute_names same rounds
  obtain ⟨rfl, rfl⟩ := Prod.mk.inj (given.symm.trans first)
  exact ⟨m₁', ⟨finished, rounds, second⟩, kept⟩

/-- A name that is not bound counts as one that is bound to zero. -/
theorem agree_bind_unbound (names : List String) {m : Machine} {name : String}
    (free : m.store.get? name = none) :
    Agree names m { m with store := m.store.bind name Store.unbound } := by
  refine ⟨fun other _ => ?_, rfl, rfl, rfl, rfl⟩
  rw [Store.lookup_bind]
  split
  · next same => rw [same, Store.lookup, free, Option.getD_none]
  · rfl

/-- A program that reads `x` before it binds it, and binds `y`. -/
def reading : List (Node Unit) :=
  [.ifElse () (.var () "x") [.print () (.text () "unsaid")]
    [.assign () "y" (.text () "said"), .print () (.var () "y")]]

theorem run_names_reading :
    Agree (Node.namesAll reading) {} { store := Store.bind {} "x" Store.unbound } ∧
    (∀ rounds, ∃ result m₁ m₁', outcome (execute rounds reading) {} = (result, m₁) ∧
      outcome (execute rounds reading) { store := Store.bind {} "x" Store.unbound } =
        (result, m₁') ∧
      Agree (Node.namesAll reading) m₁ m₁' ∧
      Binds (Node.targetsAll reading) {} m₁ ∧
      Binds (Node.targetsAll reading) { store := Store.bind {} "x" Store.unbound } m₁') ∧
    Machine.Ends {} reading (.ok ()) { store := ⟨[("y", .text "said")]⟩, out := "said\n" } ∧
    ∃ m₁', Machine.Ends { store := Store.bind {} "x" Store.unbound } reading (.ok ()) m₁' ∧
      Agree (Node.namesAll reading) { store := ⟨[("y", .text "said")]⟩, out := "said\n" } m₁' ∧
      Binds (Node.targetsAll reading) {} { store := ⟨[("y", .text "said")]⟩, out := "said\n" } ∧
      Binds (Node.targetsAll reading) { store := Store.bind {} "x" Store.unbound } m₁' := by
  have same : Agree (Node.namesAll reading) {} { store := Store.bind {} "x" Store.unbound } :=
    agree_bind_unbound _ rfl
  have ends : Machine.Ends {} reading (.ok ())
      { store := ⟨[("y", .text "said")]⟩, out := "said\n" } :=
    ⟨by simp, 1, rfl⟩
  exact ⟨same, (run_names same).1, ends, (run_names same).2 _ _ ends⟩

end Machine

end SlangScript
