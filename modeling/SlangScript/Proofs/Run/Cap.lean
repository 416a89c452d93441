import SlangScript.Proofs.Run.Journal
import SlangScript.Proofs.Run.Rounds

/-!
What a cap does to a run. The steps that are left are a measure for all loops at once: a round of
any of them takes a step, so with as many rounds as there are steps left no loop runs out of rounds.
A run with a cap therefore ends, within the cap or one step beyond it, and is stopped exactly there.
-/

namespace SlangScript.Machine

variable {ι α β : Type} {limit rounds : Nat}

/-- A machine with the cap `limit` that has taken `low` steps or more, and none beyond the cap. -/
structure Within (limit low : Nat) (m : Machine) : Prop where
  cap : m.cap = some ↑limit
  low : low ≤ m.steps
  high : m.steps ≤ limit

theorem Within.mono {low low' : Nat} {m : Machine} (h : Within limit low m) (le : low' ≤ low) :
    Within limit low' m :=
  ⟨h.cap, Nat.le_trans le h.low, h.high⟩

/-- A run with the cap `limit` is stopped by the cap, one step beyond it, or within the cap for a
reason of its own. -/
structure StopsAt (limit low : Nat) (fault : Fault) (m : Machine) : Prop where
  cap : m.cap = some ↑limit
  low : low ≤ m.steps
  cause : fault = .stepLimit limit ∧ m.steps = limit + 1 ∨ fault.Local ∧ m.steps ≤ limit

theorem StopsAt.mono {low low' : Nat} {fault : Fault} {m : Machine} (h : StopsAt limit low fault m)
    (le : low' ≤ low) : StopsAt limit low' fault m :=
  ⟨h.cap, Nat.le_trans le h.low, h.cause⟩

theorem StopsAt.steps_le {low : Nat} {fault : Fault} {m : Machine} (h : StopsAt limit low fault m) :
    m.steps ≤ limit + 1 := by
  rcases h.cause with ⟨_, steps⟩ | ⟨_, steps⟩ <;> omega

theorem StopsAt.ne_unfinished {low : Nat} {fault : Fault} {m : Machine}
    (h : StopsAt limit low fault m) : fault ≠ .unfinished := by
  rcases h.cause with ⟨rfl, _⟩ | ⟨own, _⟩
  · simp
  · exact own.ne_unfinished

/-- The step beyond the cap is taken exactly if the cap stops the run. -/
theorem StopsAt.steps_eq_iff {low : Nat} {fault : Fault} {m : Machine}
    (h : StopsAt limit low fault m) : m.steps = limit + 1 ↔ ∃ cap, fault = .stepLimit cap := by
  rcases h.cause with ⟨rfl, steps⟩ | ⟨own, steps⟩
  · exact ⟨fun _ => ⟨_, rfl⟩, fun _ => steps⟩
  · constructor
    · omega
    · exact fun ⟨cap, same⟩ => absurd same (own.ne_stepLimit cap)

theorem Within.stops {low : Nat} {fault : Fault} {m : Machine} (h : Within limit low m)
    (own : fault.Local) : StopsAt limit low fault m :=
  ⟨h.cap, h.low, .inr ⟨own, h.high⟩⟩

theorem leads_countStep {low : Nat} :
    Leads (Within limit low) countStep (fun _ => Within limit (low + 1))
      (StopsAt limit low) := by
  intro m given
  have counted := outcome_countStep_some given.cap
  have low := given.low
  have high := given.high
  split at counted
  · exact .inr ⟨_, _, counted, given.cap, by simp only; omega, .inl ⟨rfl, by simp only; omega⟩⟩
  · exact .inl ⟨(), _, counted, given.cap, by simp only; omega, by simp only; omega⟩

/-- At most `left` steps are left of the cap. -/
def Leaves (limit low left : Nat) (m : Machine) : Prop :=
  Within limit (max low (limit + 1 - left)) m

theorem not_leaves_zero {low : Nat} (m : Machine) : ¬Leaves limit low 0 m := by
  intro given
  have taken : limit + 1 ≤ m.steps := Nat.le_trans (Nat.le_max_right low _) given.low
  exact absurd given.high (Nat.not_le_of_lt taken)

/-- Wherever more rounds than steps are left, an action takes no step back, and stops at the cap or
within it. -/
def Bounded (limit rounds : Nat) (p : Run α) : Prop :=
  ∀ low, limit < low + rounds →
    Leads (Within limit low) p (fun _ => Within limit low) (StopsAt limit low)

namespace Bounded

theorem pure (a : α) : Bounded limit rounds (pure a) := fun _ _ => .pure fun _ given => given

theorem bind {p : Run α} {f : α → Run β} (hp : Bounded limit rounds p)
    (hf : ∀ a, Bounded limit rounds (f a)) : Bounded limit rounds (p >>= f) :=
  fun low enough => (hp low enough).bind fun a => hf a low enough

theorem ite {p q : Run α} (c : Prop) [Decidable c] (hp : Bounded limit rounds p)
    (hq : Bounded limit rounds q) : Bounded limit rounds (if c then p else q) :=
  fun low enough => .ite c (hp low enough) (hq low enough)

theorem ofAside {p : Run α} (h : Aside p) : Bounded limit rounds p := by
  refine fun low enough => (h.leads ?_ h.faults).mono (fun _ given => given)
    (fun _ _ given => given) fun fault m given => given.1.stops given.2
  intro m m' steps cap given
  exact ⟨cap ▸ given.cap, steps ▸ given.low, steps ▸ given.high⟩

theorem spend {body : Nat → Run α} (h : ∀ depth, Bounded limit rounds (body depth))
    (cost depth : Nat) : Bounded limit rounds (spend cost depth body) :=
  fun low enough => .spend (fun depth => h depth low enough) fun _ given => given.stops trivial

/-- An action behind a step leaves one more of the steps taken. -/
theorem leads_step {p : Run α} (h : Bounded limit rounds p) {low : Nat}
    (enough : limit < low + rounds) : Leads (Within limit low) (do countStep; p)
      (fun _ => Within limit (low + 1)) (StopsAt limit low) := by
  refine leads_countStep.bind fun _ => (h (low + 1) (by omega)).mono ?_ ?_ ?_
  · exact fun _ given => given
  · exact fun _ _ given => given
  · exact fun _ _ given => given.mono (Nat.le_succ low)

theorem afterStep {p : Run α} (h : Bounded limit rounds p) :
    Bounded limit rounds (do countStep; p) := by
  refine fun low enough => (h.leads_step enough).mono ?_ ?_ ?_
  · exact fun _ given => given
  · exact fun _ _ given => given.mono (Nat.le_succ low)
  · exact fun _ _ given => given

theorem leads_round {p : Run Bool} (h : Bounded limit rounds p) {low : Nat}
    (enough : limit < low + rounds) (left : Nat) :
    Leads (Leaves limit low (left + 1)) (do countStep; p)
      (fun again m => if again then Leaves limit low left m else Within limit low m)
      (StopsAt limit low) := by
  refine (h.leads_step (by omega)).mono (fun _ given => given) ?_ ?_
  · rintro (_ | _) m given
    · exact given.mono (by omega)
    · exact given.mono (by omega)
  · exact fun _ _ given => given.mono (Nat.le_max_left _ _)

/-- A round takes a step, so with as many rounds as steps left the steps run out first. -/
theorem loop {p : Run Bool} (h : Bounded limit rounds p) :
    Bounded limit rounds (loop (do countStep; p) rounds) := by
  intro low enough
  have spent (m : Machine) (given : Leaves limit low 0 m) : StopsAt limit low .unfinished m :=
    absurd given (not_leaves_zero m)
  refine (Leads.loop (Leaves limit low) (h.leads_round enough) spent rounds).mono ?_ ?_ ?_
  · exact fun _ given => given.mono (by omega)
  · exact fun _ _ given => given
  · exact fun _ _ given => given

end Bounded

/-- A statement stays within the cap or is stopped by it. -/
def StepBounded (limit rounds : Nat) (node : Node ι) : Prop :=
  ∀ depth, Bounded limit rounds (step rounds node depth)

def BlockBounded (limit rounds : Nat) (nodes : List (Node ι)) : Prop :=
  ∀ depth, Bounded limit rounds (block rounds nodes depth)

theorem step_bounded (limit rounds : Nat) (node : Node ι) : StepBounded limit rounds node := by
  have value (depth : Nat) (condition : Node ι) : Bounded limit rounds (valueOf depth condition) :=
    .ofAside (aside_valueOf depth condition)
  induction node using Node.rec (motive_2 := BlockBounded limit rounds) with
  | ifThen _ condition body _ ih =>
      intro depth
      rw [step]
      exact Bounded.afterStep ((value depth condition).bind fun _ =>
        .ite _ (.spend ih 2 depth) (.pure _))
  | ifElse _ condition yes no _ ihy ihn =>
      intro depth
      rw [step]
      exact Bounded.afterStep ((value depth condition).bind fun _ =>
        .ite _ (.spend ihy 2 depth) (.spend ihn 2 depth))
  | whileDo _ condition body _ ih =>
      intro depth
      rw [step]
      refine Bounded.afterStep ((Bounded.loop ?_).bind fun _ => .pure _)
      exact (value depth condition).bind fun _ =>
        .ite _ ((Bounded.spend ih 3 depth).bind fun _ => .pure _) (.pure _)
  | nil => exact fun _ => .pure _
  | cons statement rest ihs ihb =>
      intro depth
      rw [block]
      refine (ihs depth).bind fun signal => ?_
      cases signal with
      | goOn => exact ihb depth
      | breakOut | continueOn => exact .pure _
  | _ =>
      intro depth
      exact Bounded.afterStep (.ofAside (aside_act _ depth))

theorem executeTop_bounded (limit rounds : Nat) (statement : Node ι) :
    Bounded limit rounds (executeTop rounds statement) := by
  intro low enough
  refine Leads.tryCatch (step_bounded limit rounds statement depthLimit low enough) fun fault => ?_
  have passed : Leads (StopsAt limit low fault) (throw fault : Run Signal)
      (fun _ => Within limit low) (StopsAt limit low) := .throw fun _ given => given
  cases fault with
  | tooDeep =>
      -- What stops for nesting stops within the cap, so the note is no step beyond it.
      have caught (m : Machine) (given : StopsAt limit low .tooDeep m) : Within limit low m := by
        refine ⟨given.cap, given.low, ?_⟩
        rcases given.cause with ⟨same, _⟩ | ⟨_, high⟩
        · cases same
        · exact high
      have noted : Bounded limit rounds (noteLine tooDeepNote) := .ofAside (aside_noteLine _)
      exact ((noted.bind fun _ => .pure _) low enough).mono caught (fun _ _ given => given)
        fun _ _ given => given
  | _ => exact passed

theorem execute_bounded (limit rounds : Nat) (program : List (Node ι)) :
    Bounded limit rounds (execute rounds program) := by
  induction program with
  | nil => exact .pure _
  | cons statement rest ih =>
      rw [execute]
      refine (executeTop_bounded limit rounds statement).bind fun signal => ?_
      cases signal with
      | breakOut => exact .pure _
      | goOn | continueOn => exact ih

/-- How a run with a cap ends: not for want of rounds, at most one step beyond the cap, and there
exactly if the cap stops it. -/
theorem run_bounded {program : List (Node ι)} {m m' : Machine} {result : Except Fault Unit}
    (same : m.run program = (result, m')) (capped : m.cap = some ↑limit) (high : m.steps ≤ limit) :
    result ≠ .error .unfinished ∧ m'.steps ≤ limit + 1 ∧
      (m'.steps = limit + 1 ↔ ∃ cap, result = .error (.stepLimit cap)) := by
  have rounds : m.rounds = limit - m.steps + 1 := by
    simp only [Machine.rounds, capped]
    omega
  have bounded := execute_bounded limit m.rounds program m.steps (by omega) m
    ⟨capped, Nat.le_refl _, high⟩
  have same : outcome (execute m.rounds program) m = (result, m') := same
  simp only [same, Prod.mk.injEq] at bounded
  rcases bounded with ⟨_, _, ⟨rfl, rfl⟩, within⟩ | ⟨fault, _, ⟨rfl, rfl⟩, stops⟩
  · have high := within.high
    refine ⟨by simp, by omega, ?_⟩
    simp
    omega
  · simpa using ⟨stops.ne_unfinished, stops.steps_le, stops.steps_eq_iff⟩

def capped : Machine := { cap := some 20 }

end SlangScript.Machine
