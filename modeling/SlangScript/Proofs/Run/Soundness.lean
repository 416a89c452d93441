import Mathlib.Control.Monad.Basic
import SlangScript.Proofs.Grammar.Shape
import SlangScript.Proofs.Run.Law
import SlangScript.Proofs.Run.Rounds
import SlangScript.Run.Source

/-!
What can stop a program that was read from a text: its cap, or a text that is plain numeric text by
its letters but that no number is read from. There is no stray node to meet, no unknown operator, no
division without a result, and nesting beyond the limit costs a statement but not the run.
-/

namespace SlangScript.Machine

variable {ι α β : Type} {cap : Option Int} {rounds : Nat}

/-- A fault that may stop a statement on a machine with the cap `cap`. -/
def Stops (cap : Option Int) (fault : Fault) : Prop :=
  fault = .tooDeep ∨ fault = .unfinished ∨ (∃ limit, cap = some limit ∧ fault = .stepLimit limit) ∨
    fault.Unreadable

/-- An action that keeps the cap, and stops for faults of programs only. -/
def Sound (cap : Option Int) (p : Run α) : Prop :=
  Leads (fun m => m.cap = cap) p (fun _ m => m.cap = cap) fun fault m =>
    m.cap = cap ∧ Stops cap fault

namespace Sound

theorem pure (a : α) : Sound cap (pure a) := Leads.pure fun _ given => given

theorem ofAside {p : Run α} (h : Aside p) (faults : ∀ m, Refuses (Stops cap) (outcome p m).1) :
    Sound cap p :=
  h.leads (fun _ _ _ same given => same.trans given) faults

theorem valueOf (depth : Nat) {expression : Node ι} (h : expression.IsExpression) :
    Sound cap (valueOf depth expression) := by
  refine .ofAside (aside_valueOf depth expression) fun m fault same => ?_
  rcases evaluate_refuses m.store depth h fault same with deep | unreadable
  · exact .inl deep
  · exact .inr (.inr (.inr unreadable))

theorem ofTotal {p : Run α} (h : Aside p) (total : ∀ m, ∃ a, (outcome p m).1 = .ok a) :
    Sound cap p := by
  refine .ofAside h fun m => ?_
  obtain ⟨a, same⟩ := total m
  rw [same]
  exact .ok a

theorem countStep : Sound cap countStep := by
  intro m given
  cases cap with
  | none => exact .inl ⟨(), m, outcome_countStep_none given, given⟩
  | some limit =>
      have counted := outcome_countStep_some given
      split at counted
      · exact .inr ⟨_, _, counted, given, .inr (.inr (.inl ⟨limit, rfl, rfl⟩))⟩
      · exact .inl ⟨(), _, counted, given⟩

theorem bind {p : Run α} {f : α → Run β} (hp : Sound cap p) (hf : ∀ a, Sound cap (f a)) :
    Sound cap (p >>= f) :=
  Leads.bind hp hf

end Sound

theorem sound_bindTo (depth : Nat) (name : String) {value : Node ι} (h : value.IsExpression) :
    Sound cap (bindTo depth name value) :=
  (Sound.valueOf depth h).bind fun v => .ofTotal
    (p := modify fun m => { m with store := m.store.bind name v })
    ⟨fun _ => rfl, fun _ => rfl, fun _ => .ok ()⟩ fun _ => ⟨(), rfl⟩

theorem sound_noteLine (line : String) : Sound cap (noteLine line) :=
  .ofTotal (aside_noteLine line) fun _ => ⟨(), rfl⟩

theorem sound_printLine (line : String) : Sound cap (printLine line) :=
  .ofTotal (aside_printLine line) fun _ => ⟨(), rfl⟩

theorem sound_passing (cap : Option Int) : Passing (Sound cap) where
  pure := Sound.pure
  tooDeep := Leads.throw fun _ given => ⟨given, .inl rfl⟩
  unfinished := Leads.throw fun _ given => ⟨given, .inr (.inl rfl)⟩
  countStep := Sound.countStep
  noteLine := sound_noteLine
  bind := Sound.bind
  tryCatch {_ _ handle} hp deep passes := by
    refine Leads.tryCatch hp fun fault => ?_
    by_cases nested : fault = .tooDeep
    · subst nested
      exact deep.mono (fun _ given => given.1) (fun _ _ given => given) fun _ _ given => given
    · rw [passes fault nested]
      exact .throw fun _ given => given

/-- In a program, expressions stand where conditions and values belong. -/
theorem sound_covers (cap : Option Int) :
    Covers (Sound cap) (@Node.IsExpression ι) Node.IsStatement where
  value h depth := Sound.valueOf depth h
  act h blockless depth := by
    cases h with
    | declare h | assign h => exact (sound_bindTo depth _ h).bind fun _ => .pure _
    | print h => exact (Sound.valueOf depth h).bind fun _ => (sound_printLine _).bind fun _ => .pure _
    | debugPrint h =>
        exact (Sound.valueOf depth h).bind fun _ => (sound_noteLine _).bind fun _ => .pure _
    | ifThen | ifElse | whileDo => cases blockless
    | breakOut | continueOn => exact .pure _
  ifThen h := by
    cases h with
    | ifThen hc hb => exact ⟨hc, hb⟩
  ifElse h := by
    cases h with
    | ifElse hc hy hn => exact ⟨hc, hy, hn⟩
  whileDo h := by
    cases h with
    | whileDo hc hb => exact ⟨hc, hb⟩

/-- At the outermost level nothing stops for nesting. -/
theorem sound_executeTop (cap : Option Int) (rounds : Nat) {statement : Node ι}
    (h : statement.IsStatement) :
    Leads (fun m => m.cap = cap) (executeTop rounds statement) (fun _ m => m.cap = cap)
      fun fault m => m.cap = cap ∧ Stops cap fault ∧ fault ≠ .tooDeep := by
  have inner := (sound_passing cap).step (sound_covers cap) rounds statement h depthLimit
  refine Leads.tryCatch inner fun fault => ?_
  cases fault with
  | tooDeep =>
      have noted : Leads (fun m => m.cap = cap) (noteLine tooDeepNote) (fun _ m => m.cap = cap)
          fun fault m => m.cap = cap ∧ Stops cap fault ∧ fault ≠ .tooDeep :=
        fun m given => .inl ⟨(), _, rfl, given⟩
      exact (noted.bind fun _ => .pure fun _ given => given).mono (fun _ given => given.1)
        (fun _ _ given => given) fun _ _ given => given
  | _ => exact .throw fun _ given => ⟨given.1, given.2, by simp⟩

theorem sound_execute (cap : Option Int) (rounds : Nat) {program : List (Node ι)}
    (h : ∀ s ∈ program, s.IsStatement) :
    Leads (fun m => m.cap = cap) (execute rounds program) (fun _ m => m.cap = cap)
      fun fault m => m.cap = cap ∧ Stops cap fault ∧ fault ≠ .tooDeep := by
  induction program with
  | nil => exact .pure fun _ given => given
  | cons statement rest ih =>
      rw [List.forall_mem_cons] at h
      rw [execute]
      refine (sound_executeTop cap rounds h.1).bind fun signal => ?_
      cases signal with
      | breakOut => exact .pure fun _ given => given
      | goOn | continueOn => exact ih h.2

/-- If a program that was read from a text stops, then its cap stops it, or a text that is plain
numeric text by its letters but that no number is read from. -/
theorem fault_of_ends {source : String} {m m' : Machine} {fault : Fault}
    (h : m.Ends (parse (tokenize source)).statements (.error fault) m') :
    (∃ cap, m.cap = some cap ∧ fault = .stepLimit cap) ∨
      ∃ text : String, fault = .operation (.unreadable ⟨text⟩) ∧
        Number.matchesPlain text.toList = true ∧ Number.read? text.toList = none := by
  obtain ⟨finished, rounds, same⟩ := h
  rcases sound_execute m.cap rounds (parse_isStatement (tokenize source)) m rfl with
    ⟨_, _, given, _⟩ | ⟨other, _, given, _, stops, shallow⟩
  · rw [given] at same
    cases same
  · rw [given] at same
    cases same
    -- Nesting is caught at the outermost level, and a run that ends had rounds enough.
    rcases stops with deep | unfinished | ⟨cap, capped, spent⟩ | ⟨error, operation, unreadable⟩
    · exact absurd deep shallow
    · exact absurd (congrArg Except.error unfinished) finished
    · exact .inl ⟨cap, capped, spent⟩
    · obtain ⟨text, rfl, plain, none⟩ := unreadable
      exact .inr ⟨text, operation, plain, none⟩

/-- A text with a dotless i is infinity by its letters. -/
def dotless : String := "3mol -\"ınf\""

theorem fault_dotless : Machine.Ends {} (parse (tokenize dotless)).statements
      (.error (.operation (.unreadable ⟨"ınf"⟩))) {} ∧
    ((∃ cap, (Machine.cap {}) = some cap ∧
        Fault.operation (.unreadable ⟨"ınf"⟩) = .stepLimit cap) ∨
      ∃ text : String, Fault.operation (.unreadable ⟨"ınf"⟩) = .operation (.unreadable ⟨text⟩) ∧
        Number.matchesPlain text.toList = true ∧ Number.read? text.toList = none) :=
  have ends : Machine.Ends {} (parse (tokenize dotless)).statements
      (.error (.operation (.unreadable ⟨"ınf"⟩))) {} :=
    ⟨by simp, 1, by decide +kernel⟩
  ⟨ends, fault_of_ends ends⟩

end SlangScript.Machine
