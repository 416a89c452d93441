import SlangScript.Proofs.Run.Steps

/-!
Runs that keep a journal of what they begin: the execution of a statement, and the test of the
condition of a loop. Apart from its journal such a run is the run of the machine, and the steps
that are counted against a cap are the entries of the journal.
-/

namespace SlangScript.Machine

variable {ι α : Type} {rounds : Nat}

/-- How many statements a run has begun, and how many tests of the condition of a loop. -/
structure Journal where
  statements : Nat := 0
  tests : Nat := 0

def Journal.total (j : Journal) : Nat := j.statements + j.tests

abbrev Journaled (α : Type) : Type := Action (Machine × Journal) α

/-- A run on the machine that has no entry in the journal. -/
def silently (p : Run α) : Journaled α := ExceptT.mk fun (m, j) =>
  let (result, m') := outcome p m
  (result, m', j)

def beginStatement : Journaled Unit :=
  modify fun (m, j) => (m, { j with statements := j.statements + 1 })

def beginTest : Journaled Unit := modify fun (m, j) => (m, { j with tests := j.tests + 1 })

mutual

/-- Executes a statement and keeps the journal. -/
def stepJournaled (rounds : Nat) (node : Node ι) (depth : Nat) : Journaled Signal := do
  beginStatement
  silently countStep
  match node with
  | .ifThen _ condition body =>
    if (← silently (valueOf depth condition)).truth then
      spend 2 depth (blockJournaled rounds body)
    else return .goOn
  | .ifElse _ condition yes no =>
    if (← silently (valueOf depth condition)).truth then
      spend 2 depth (blockJournaled rounds yes)
    else spend 2 depth (blockJournaled rounds no)
  | .whileDo _ condition body =>
    loop (do
      beginTest
      silently countStep
      if (← silently (valueOf depth condition)).truth then
        let signal ← spend 3 depth (blockJournaled rounds body)
        return signal != .breakOut
      else return false) rounds
    return .goOn
  | simple => silently (act simple depth)

def blockJournaled (rounds : Nat) : List (Node ι) → (depth : Nat) → Journaled Signal
  | [], _ => return .goOn
  | statement :: rest, depth => do
    match ← stepJournaled rounds statement depth with
    | .goOn => blockJournaled rounds rest depth
    | signal => return signal

end

/-- A machine with a journal is that machine. -/
def Keeps (m : Machine) (w : Machine × Journal) : Prop := w.1 = m

/-- An action that makes one entry in the journal, and does nothing else. -/
def Enters (p : Journaled Unit) : Prop :=
  ∀ m j, ∃ j' : Journal, outcome p (m, j) = (.ok (), m, j') ∧ j'.total = j.total + 1

theorem Enters.follows {entry : Journaled Unit} (he : Enters entry) {p : Run α} {q : Journaled α}
    (h : Follows Keeps p q) : Follows Keeps p (entry >>= fun _ => q) := by
  rintro m ⟨_, j⟩ rfl
  obtain ⟨j', entered, _⟩ := he _ j
  rw [outcome_bind_ok entered]
  exact h _ (_, j') rfl

/-- The steps that the machine has counted are the entries of the journal. -/
def Counted (w : Machine × Journal) : Prop := w.1.cap ≠ none ∧ w.1.steps = w.2.total

/-- One entry is yet to be counted. -/
def Owed (w : Machine × Journal) : Prop := w.1.cap ≠ none ∧ w.1.steps + 1 = w.2.total

/-- Steps and entries agree before the run and wherever it ends. -/
def Counts (p : Journaled α) : Prop := Leads Counted p (fun _ => Counted) fun _ => Counted

theorem Enters.leads {entry : Journaled Unit} (he : Enters entry) :
    Leads Counted entry (fun _ => Owed) fun _ => Counted := by
  rintro ⟨m, j⟩ ⟨capped, counted⟩
  obtain ⟨j', entered, one⟩ := he m j
  exact .inl ⟨(), _, entered, capped, by rw [one, ← counted]⟩

theorem Counts.loop {round : Journaled Bool} (h : Counts round) (rounds : Nat) :
    Counts (loop round rounds) :=
  Leads.loop_of_kept h (fun _ given => given) rounds

def BlockCounts (rounds : Nat) (nodes : List (Node ι)) : Prop :=
  ∀ depth, Counts (blockJournaled rounds nodes depth)

theorem BlockCounts.spend {body : List (Node ι)} (h : BlockCounts rounds body) (cost depth : Nat) :
    Counts (spend cost depth (blockJournaled rounds body)) :=
  Leads.spend h fun _ given => given

end SlangScript.Machine
