import SlangScript.Proofs.Outcome
import SlangScript.Run.Execute

/-!
Signals stay in their loops. A statement tells to leave a loop, or to start its next round, only if
it holds a word for that outside of every loop of its own. So where every word that leaves a loop
stands in a loop, a program is executed to its last statement, or to one that stops the run.
-/

namespace SlangScript

variable {ι α : Type}

/-- A word for the signal stands in the statement and in no loop of it: the statement is the word,
or the word stands so in a block of the conditional that the statement is. -/
inductive Node.Exposes : Node ι → Signal → Prop
  | breakOut {tag} : Exposes (.breakOut tag) .breakOut
  | continueOn {tag} : Exposes (.continueOn tag) .continueOn
  | ifThen {tag condition body s signal} : s ∈ body → Exposes s signal →
      Exposes (.ifThen tag condition body) signal
  | yes {tag condition yes no s signal} : s ∈ yes → Exposes s signal →
      Exposes (.ifElse tag condition yes no) signal
  | no {tag condition yes no s signal} : s ∈ no → Exposes s signal →
      Exposes (.ifElse tag condition yes no) signal

namespace Machine

/-- Whatever the action tells is to go on, or is one of the signals. -/
def Tells (signals : Signal → Prop) (p : Run Signal) : Prop :=
  ∀ m signal m', outcome p m = (.ok signal, m') → signal = .goOn ∨ signals signal

namespace Tells

variable {signals signals' : Signal → Prop}

theorem mono {p : Run Signal} (h : Tells signals p)
    (implies : ∀ signal, signals signal → signals' signal) : Tells signals' p :=
  fun m signal m' same => (h m signal m' same).imp_right (implies signal)

theorem goOn : Tells signals (pure .goOn) := by
  rintro m signal m' ⟨⟩
  exact .inl rfl

theorem pure {signal : Signal} (h : signals signal) : Tells signals (pure signal) := by
  rintro m signal m' ⟨⟩
  exact .inr h

theorem throw (fault : Fault) : Tells signals (throw fault) := by
  rintro m signal m' ⟨⟩

theorem bind {p : Run α} {f : α → Run Signal} (h : ∀ a, Tells signals (f a)) :
    Tells signals (p >>= f) := by
  intro m signal m' same
  obtain ⟨a, m₁, _, second⟩ := outcome_bind_eq_ok same
  exact h a m₁ signal m' second

theorem ite {p q : Run Signal} (c : Prop) [Decidable c] (hp : Tells signals p)
    (hq : Tells signals q) : Tells signals (if c then p else q) := by
  split
  · exact hp
  · exact hq

theorem spend {action : Nat → Run Signal} (h : ∀ depth, Tells signals (action depth))
    (cost depth : Nat) : Tells signals (spend cost depth action) :=
  ite _ (h _) (throw _)

theorem tryCatch {p : Run Signal} {handle : Fault → Run Signal} (hp : Tells signals p)
    (hh : ∀ fault, Tells signals (handle fault)) : Tells signals (tryCatch p handle) := by
  intro m signal m' same
  rcases first : outcome p m with ⟨fault | told, m₁⟩
  · rw [outcome_tryCatch_error first] at same
    exact hh fault m₁ signal m' same
  · rw [outcome_tryCatch_ok first] at same
    exact hp m signal m' (first.trans same)

end Tells

theorem act_tells (node : Node ι) (depth : Nat) : Tells node.Exposes (act node depth) := by
  cases node with
  | declare | assign => exact .bind fun _ => .goOn
  | print | debugPrint => exact .bind fun _ => .bind fun _ => .goOn
  | breakOut => exact .pure .breakOut
  | continueOn => exact .pure .continueOn
  | _ => exact .throw _

def StepTells (rounds : Nat) (node : Node ι) : Prop :=
  ∀ depth, Tells node.Exposes (step rounds node depth)

def BlockTells (rounds : Nat) (nodes : List (Node ι)) : Prop :=
  ∀ depth, Tells (fun signal => ∃ s ∈ nodes, s.Exposes signal) (block rounds nodes depth)

/-- A block of a conditional tells what a statement in it exposes; a loop tells nothing, however
many rounds it takes and whatever its body tells. -/
theorem step_tells (rounds : Nat) (node : Node ι) : StepTells rounds node := by
  induction node using Node.rec (motive_2 := BlockTells rounds) with
  | ifThen tag condition body _ ih =>
      intro depth
      have inside (depth : Nat) :
          Tells (Node.ifThen tag condition body).Exposes (block rounds body depth) := by
        refine (ih depth).mono ?_
        rintro signal ⟨s, member, exposes⟩
        exact .ifThen member exposes
      rw [step]
      exact .bind fun _ => .bind fun _ => .ite _ (.spend inside 2 depth) .goOn
  | ifElse tag condition yes no _ ihy ihn =>
      intro depth
      have first (depth : Nat) :
          Tells (Node.ifElse tag condition yes no).Exposes (block rounds yes depth) := by
        refine (ihy depth).mono ?_
        rintro signal ⟨s, member, exposes⟩
        exact .yes member exposes
      have second (depth : Nat) :
          Tells (Node.ifElse tag condition yes no).Exposes (block rounds no depth) := by
        refine (ihn depth).mono ?_
        rintro signal ⟨s, member, exposes⟩
        exact .no member exposes
      rw [step]
      exact .bind fun _ => .bind fun _ => .ite _ (.spend first 2 depth) (.spend second 2 depth)
  | whileDo =>
      intro depth
      rw [step]
      exact .bind fun _ => .bind fun _ => .goOn
  | nil => exact fun _ => .goOn
  | cons statement rest ihs ihb =>
      intro depth m signal m' same
      rw [block] at same
      obtain ⟨told, m₁, first, second⟩ := outcome_bind_eq_ok same
      have exposed := ihs depth m told m₁ first
      cases told with
      | goOn =>
          refine (ihb depth m₁ signal m' second).imp_right ?_
          rintro ⟨s, member, exposes⟩
          exact ⟨s, List.mem_cons_of_mem _ member, exposes⟩
      | breakOut | continueOn =>
          cases second
          exact .inr ⟨statement, List.mem_cons_self, exposed.resolve_left (by simp)⟩
  | _ => exact fun depth => .bind fun _ => act_tells _ depth

theorem executeTop_tells (rounds : Nat) (statement : Node ι) :
    Tells statement.Exposes (executeTop rounds statement) := by
  refine (step_tells rounds statement depthLimit).tryCatch fun fault => ?_
  cases fault with
  | tooDeep => exact .bind fun _ => .goOn
  | _ => exact .throw _

theorem outcome_execute_cons {rounds : Nat} {s : Node ι} {m m₁ : Machine} {signal : Signal}
    (first : outcome (executeTop rounds s) m = (.ok signal, m₁)) (goes : signal ≠ .breakOut)
    (ss : List (Node ι)) :
    outcome (execute rounds (s :: ss)) m = outcome (execute rounds ss) m₁ := by
  rw [execute, outcome_bind_ok first]
  cases signal with
  | breakOut => exact absurd rfl goes
  | goOn | continueOn => rfl

/-- Every statement of the program is executed in turn, or every one up to one that stops the
run. -/
inductive Traverses (rounds : Nat) : Machine → List (Node ι) → Except Fault Unit → Machine → Prop
  | done {m} : Traverses rounds m [] (.ok ()) m
  | stop {m m' s ss fault} : outcome (executeTop rounds s) m = (.error fault, m') →
      Traverses rounds m (s :: ss) (.error fault) m'
  | next {m m₁ m' s ss signal result} : outcome (executeTop rounds s) m = (.ok signal, m₁) →
      Traverses rounds m₁ ss result m' → Traverses rounds m (s :: ss) result m'

theorem traverses_execute {rounds : Nat} {program : List (Node ι)}
    (h : ∀ s ∈ program, ¬s.Exposes .breakOut) (m : Machine) :
    Traverses rounds m program (outcome (execute rounds program) m).1
      (outcome (execute rounds program) m).2 := by
  induction program generalizing m with
  | nil => exact .done
  | cons s ss ih =>
      rw [List.forall_mem_cons] at h
      rcases first : outcome (executeTop rounds s) m with ⟨fault | signal, m₁⟩
      · rw [execute, outcome_bind_error first]
        exact .stop first
      · have goes : signal ≠ .breakOut := by
          rintro rfl
          exact h.1 ((executeTop_tells rounds s m _ m₁ first).resolve_left (by simp))
        rw [outcome_execute_cons first goes]
        exact .next first (ih h.2 m₁)

/-- The statement tells the signal when it is executed on the machine `m`, at the outermost level
or within some depth, and leaves the machine `m'`. -/
def Told (rounds : Nat) (s : Node ι) (m : Machine) (signal : Signal) (m' : Machine) : Prop :=
  outcome (executeTop rounds s) m = (.ok signal, m') ∨
    ∃ depth, outcome (step rounds s depth) m = (.ok signal, m')

theorem Told.exposes {rounds : Nat} {s : Node ι} {m m' : Machine} {signal : Signal}
    (h : Told rounds s m signal m') : signal = .goOn ∨ s.Exposes signal := by
  rcases h with top | ⟨depth, inner⟩
  · exact executeTop_tells rounds s m signal m' top
  · exact step_tells rounds s depth m signal m' inner

/-- Signals stay in their loops. A statement that tells to leave a loop, or to start its next round,
exposes a word for that; one that exposes none tells to go on; and a program of which no statement
exposes a word that leaves a loop is executed to its last statement, or to one that stops the run. -/
theorem signals_stay (ι : Type) (rounds : Nat) :
    (∀ (s : Node ι) (m : Machine) (signal : Signal) (m' : Machine), Told rounds s m signal m' →
      signal = .goOn ∨ s.Exposes signal) ∧
    (∀ s : Node ι, (∀ signal, ¬s.Exposes signal) →
      ∀ (m : Machine) (signal : Signal) (m' : Machine), Told rounds s m signal m' →
        signal = .goOn) ∧
    ∀ program : List (Node ι), (∀ s ∈ program, ¬s.Exposes .breakOut) → ∀ m : Machine,
      Traverses rounds m program (outcome (execute rounds program) m).1
        (outcome (execute rounds program) m).2 := by
  refine ⟨fun s m signal m' told => told.exposes, fun s none m signal m' told => ?_,
    fun program h m => traverses_execute h m⟩
  exact told.exposes.resolve_right (none signal)

/-- A conditional that leaves the loop around it. -/
def leaving : Node Unit := .ifThen () (.flag () true) [.breakOut (), .print () (.text () "unsaid")]

/-- A loop that it leaves. -/
def guarded : Node Unit := .whileDo () (.flag () true) [leaving, .print () (.text () "unsaid")]

theorem not_guarded_exposes (signal : Signal) : ¬guarded.Exposes signal := nofun

theorem signals_stay_guarded :
    (Told 1 leaving {} .breakOut {} ∧ leaving.Exposes .breakOut) ∧
    ((∀ signal, ¬guarded.Exposes signal) ∧ Told 1 guarded {} .goOn {} ∧
      ∀ (m : Machine) (signal : Signal) (m' : Machine), Told 1 guarded m signal m' →
        signal = .goOn) ∧
    (∀ s ∈ [guarded, .print () (.text () "said")], ¬s.Exposes .breakOut) ∧
    Traverses 1 {} [guarded, .print () (.text () "said")] (.ok ()) { out := "said\n" } := by
  have told : Told 1 leaving {} .breakOut {} := .inl rfl
  have kept : ∀ s ∈ [guarded, .print () (.text () "said")], ¬s.Exposes .breakOut := by
    simp only [List.forall_mem_cons, List.not_mem_nil, false_implies, implies_true, and_true]
    exact ⟨not_guarded_exposes _, nofun⟩
  obtain ⟨exposes, onward, whole⟩ := signals_stay Unit 1
  refine ⟨⟨told, (exposes leaving {} _ {} told).resolve_left (by simp)⟩,
    ⟨not_guarded_exposes, .inl rfl, onward guarded not_guarded_exposes⟩, kept, ?_⟩
  have same : outcome (execute 1 [guarded, .print () (.text () "said")]) {} =
      (.ok (), { out := "said\n" }) := rfl
  have traversed := whole _ kept {}
  rwa [same] at traversed

end Machine

end SlangScript
