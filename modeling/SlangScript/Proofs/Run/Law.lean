import SlangScript.Proofs.Run.Steps

/-!
Laws of the actions of a run. A statement is put together from the taking of steps and the testing
of conditions, and from what statements without blocks do, in sequence and in loops; so a property
that passes on to sequences and to the catching of faults holds of a whole program as soon as it
holds of these parts. Where it holds of every action that neither counts steps nor looks at the cap,
it holds of every program.
-/

namespace SlangScript.Machine

variable {ι α β : Type}

/-- The machine with other steps counted against another cap. -/
def metered (m : Machine) (steps : Nat) (cap : Option Int) : Machine := { m with steps, cap }

/-- The machine with other outputs before its own. -/
def behind (m : Machine) (out err : String) : Machine :=
  { m with out := out ++ m.out, err := err ++ m.err }

/-- What was printed on `m` is the front of what was printed on `m'`. -/
structure Prints (m m' : Machine) : Prop where
  out : ∃ more, m'.out = m.out ++ more
  err : ∃ more, m'.err = m.err ++ more

theorem Prints.refl (m : Machine) : Prints m m := ⟨⟨"", by simp⟩, ⟨"", by simp⟩⟩

theorem Prints.trans {m₁ m₂ m₃ : Machine} (h : Prints m₁ m₂) (h' : Prints m₂ m₃) :
    Prints m₁ m₃ := by
  obtain ⟨⟨out, sameOut⟩, err, sameErr⟩ := h
  obtain ⟨⟨out', sameOut'⟩, err', sameErr'⟩ := h'
  exact ⟨⟨out ++ out', by rw [sameOut', sameOut, String.append_assoc]⟩,
    err ++ err', by rw [sameErr', sameErr, String.append_assoc]⟩

/-- The cap has stopped the run. -/
def CutOff (result : Except Fault α) : Prop := ∃ cap, result = .error (.stepLimit cap)

@[simp] theorem not_cutOff_ok (a : α) : ¬CutOff (.ok a) := fun ⟨_, same⟩ => nomatch same

@[simp] theorem cutOff_error {fault : Fault} :
    CutOff (.error fault : Except Fault α) ↔ ∃ cap, fault = .stepLimit cap := by
  simp [CutOff]

/-- An action that neither counts steps nor looks at the cap, and does the same whatever was printed
before it. -/
structure Blind (p : Run α) : Prop extends Aside p where
  metered : ∀ m steps cap, outcome p (m.metered steps cap) =
    ((outcome p m).1, (outcome p m).2.metered steps cap)
  behind : ∀ m out err, outcome p (m.behind out err) =
    ((outcome p m).1, (outcome p m).2.behind out err)

namespace Blind

/-- Nothing printed is taken back. -/
theorem prints {p : Run α} (h : Blind p) (m : Machine) : Prints m (outcome p m).2 := by
  have same : m = { m with out := "", err := "" }.behind m.out m.err := by simp [Machine.behind]
  have after := h.behind { m with out := "", err := "" } m.out m.err
  rw [← same] at after
  rw [after]
  exact ⟨⟨_, rfl⟩, _, rfl⟩

theorem pure (a : α) : Blind (pure a) :=
  { Aside.pure a with metered := fun _ _ _ => rfl, behind := fun _ _ _ => rfl }

theorem throw {fault : Fault} (h : fault.Local) : Blind (throw fault : Run α) :=
  { Aside.throw h with metered := fun _ _ _ => rfl, behind := fun _ _ _ => rfl }

theorem bind {p : Run α} {f : α → Run β} (hp : Blind p) (hf : ∀ a, Blind (f a)) :
    Blind (p >>= f) := by
  refine { hp.toAside.bind fun a => (hf a).toAside with
    metered := fun m steps cap => ?_, behind := fun m out err => ?_ }
  · have metered := hp.metered m steps cap
    rcases first : outcome p m with ⟨fault | a, m₁⟩ <;> rw [first] at metered
    · rw [outcome_bind_error metered, outcome_bind_error first]
    · rw [outcome_bind_ok metered, outcome_bind_ok first, (hf a).metered]
  · have behind := hp.behind m out err
    rcases first : outcome p m with ⟨fault | a, m₁⟩ <;> rw [first] at behind
    · rw [outcome_bind_error behind, outcome_bind_error first]
    · rw [outcome_bind_ok behind, outcome_bind_ok first, (hf a).behind]

end Blind

theorem blind_valueOf (depth : Nat) (expression : Node ι) : Blind (valueOf depth expression) :=
  { aside_valueOf depth expression with metered := fun _ _ _ => rfl, behind := fun _ _ _ => rfl }

theorem append_line (before said line : String) :
    before ++ said ++ line ++ "\n" = before ++ (said ++ line ++ "\n") := by
  simp only [String.append_assoc]

theorem blind_printLine (line : String) : Blind (printLine line) :=
  { aside_printLine line with
    metered := fun _ _ _ => rfl
    behind := fun m out err => Prod.ext rfl
      (congrArg (Machine.mk m.store · (err ++ m.err) m.steps m.cap) (append_line out m.out line)) }

theorem blind_noteLine (line : String) : Blind (noteLine line) :=
  { aside_noteLine line with
    metered := fun _ _ _ => rfl
    behind := fun m out err => Prod.ext rfl
      (congrArg (Machine.mk m.store (out ++ m.out) · m.steps m.cap) (append_line err m.err line)) }

theorem blind_bindTo (depth : Nat) (name : String) (expression : Node ι) :
    Blind (bindTo depth name expression) :=
  (blind_valueOf depth expression).bind fun _ =>
    ⟨⟨fun _ => rfl, fun _ => rfl, fun _ => .ok ()⟩, fun _ _ _ => rfl, fun _ _ _ => rfl⟩

theorem blind_act (node : Node ι) (depth : Nat) : Blind (act node depth) := by
  cases node with
  | declare tag name value | assign tag name value =>
      exact (blind_bindTo depth name value).bind fun _ => .pure _
  | print tag value =>
      exact (blind_valueOf depth value).bind fun _ => (blind_printLine _).bind fun _ => .pure _
  | debugPrint tag value =>
      exact (blind_valueOf depth value).bind fun _ => (blind_noteLine _).bind fun _ => .pure _
  | breakOut | continueOn => exact .pure _
  | _ => exact .throw trivial

/-- A property of actions that passes from the parts of a run to the whole. Only nesting beyond the
limit is caught. -/
structure Passing (P : {α : Type} → Run α → Prop) : Prop where
  pure : ∀ {α : Type} (a : α), P (pure a : Run α)
  tooDeep : ∀ {α : Type}, P (throw .tooDeep : Run α)
  unfinished : ∀ {α : Type}, P (throw .unfinished : Run α)
  countStep : P countStep
  noteLine : ∀ line : String, P (noteLine line)
  bind : ∀ {α β : Type} {p : Run α} {f : α → Run β}, P p → (∀ a, P (f a)) → P (p >>= f)
  tryCatch : ∀ {α : Type} {p : Run α} {handle : Fault → Run α}, P p → P (handle .tooDeep) →
    (∀ fault, fault ≠ .tooDeep → handle fault = throw fault) → P (tryCatch p handle)

/-- Whether there are no blocks in the statement. -/
def Blockless : Node ι → Prop
  | .ifThen .. | .ifElse .. | .whileDo .. => False
  | _ => True

/-- The property holds of the values of conditions and of what statements without blocks do, where
blocks of such statements hold such statements again. -/
structure Covers (P : {α : Type} → Run α → Prop) (condition statement : Node ι → Prop) : Prop where
  value : ∀ {e}, condition e → ∀ depth, P (valueOf depth e)
  act : ∀ {s}, statement s → Blockless s → ∀ depth, P (act s depth)
  ifThen : ∀ {tag c body}, statement (.ifThen tag c body) → condition c ∧ ∀ s ∈ body, statement s
  ifElse : ∀ {tag c yes no}, statement (.ifElse tag c yes no) →
    condition c ∧ (∀ s ∈ yes, statement s) ∧ ∀ s ∈ no, statement s
  whileDo : ∀ {tag c body}, statement (.whileDo tag c body) → condition c ∧ ∀ s ∈ body, statement s

namespace Passing

variable {P : {α : Type} → Run α → Prop} {condition statement : Node ι → Prop}

theorem ite {p q : Run α} (c : Prop) [Decidable c] (hp : P p) (hq : P q) :
    P (if c then p else q) := by
  split
  · exact hp
  · exact hq

theorem spend (passing : Passing P) {action : Nat → Run α} (h : ∀ depth, P (action depth))
    (cost depth : Nat) : P (spend cost depth action) :=
  ite _ (h _) passing.tooDeep

theorem loop (passing : Passing P) {round : Run Bool} (h : P round) (rounds : Nat) :
    P (loop round rounds) := by
  induction rounds with
  | zero => exact passing.unfinished
  | succ rounds ih =>
      refine passing.bind h fun again => ?_
      cases again with
      | true => exact ih
      | false => exact passing.pure ()

/-- The property holds of a block of such statements at every depth. -/
def OfBlock (P : {α : Type} → Run α → Prop) (statement : Node ι → Prop) (rounds : Nat)
    (nodes : List (Node ι)) : Prop :=
  (∀ s ∈ nodes, statement s) → ∀ depth, P (block rounds nodes depth)

theorem step (passing : Passing P) (covers : Covers P condition statement) (rounds : Nat)
    (node : Node ι) : statement node → ∀ depth, P (step rounds node depth) := by
  induction node using Node.rec (motive_2 := OfBlock P statement rounds) with
  | ifThen _ c body _ ih =>
      intro given depth
      obtain ⟨test, inside⟩ := covers.ifThen given
      rw [Machine.step]
      exact passing.bind passing.countStep fun _ => passing.bind (covers.value test depth) fun _ =>
        ite _ (passing.spend (ih inside) 2 depth) (passing.pure _)
  | ifElse _ c yes no _ ihy ihn =>
      intro given depth
      obtain ⟨test, first, second⟩ := covers.ifElse given
      rw [Machine.step]
      exact passing.bind passing.countStep fun _ => passing.bind (covers.value test depth) fun _ =>
        ite _ (passing.spend (ihy first) 2 depth) (passing.spend (ihn second) 2 depth)
  | whileDo _ c body _ ih =>
      intro given depth
      obtain ⟨test, inside⟩ := covers.whileDo given
      rw [Machine.step]
      refine passing.bind passing.countStep fun _ =>
        passing.bind (passing.loop ?_ rounds) fun _ => passing.pure _
      exact passing.bind passing.countStep fun _ => passing.bind (covers.value test depth) fun _ =>
        ite _ (passing.bind (passing.spend (ih inside) 3 depth) fun _ => passing.pure _)
          (passing.pure _)
  | nil => exact fun _ _ => passing.pure _
  | cons s rest ihs ihb =>
      intro given depth
      obtain ⟨first, others⟩ := List.forall_mem_cons.mp given
      rw [block]
      refine passing.bind (ihs first depth) fun signal => ?_
      cases signal with
      | goOn => exact ihb others depth
      | breakOut | continueOn => exact passing.pure _
  | _ =>
      exact fun given depth =>
        passing.bind passing.countStep fun _ => covers.act given trivial depth

theorem executeTop (passing : Passing P) (covers : Covers P condition statement) (rounds : Nat)
    {s : Node ι} (h : statement s) : P (executeTop rounds s) := by
  refine passing.tryCatch (passing.step covers rounds s h depthLimit) ?_ fun fault other => ?_
  · exact passing.bind (passing.noteLine _) fun _ => passing.pure _
  · cases fault with
    | tooDeep => exact absurd rfl other
    | _ => rfl

theorem execute (passing : Passing P) (covers : Covers P condition statement) (rounds : Nat)
    {program : List (Node ι)} (h : ∀ s ∈ program, statement s) : P (execute rounds program) := by
  induction program with
  | nil => exact passing.pure ()
  | cons s rest ih =>
      obtain ⟨first, others⟩ := List.forall_mem_cons.mp h
      rw [Machine.execute]
      refine passing.bind (passing.executeTop covers rounds first) fun signal => ?_
      cases signal with
      | breakOut => exact passing.pure ()
      | goOn | continueOn => exact ih others

end Passing

/-- A property of actions that passes from the parts of a run to the whole. A handler of faults must
let pass what the cap has stopped. -/
structure Law (P : {α : Type} → Run α → Prop) : Prop where
  blind : ∀ {α : Type} {p : Run α}, Blind p → P p
  unfinished : ∀ {α : Type}, P (throw .unfinished : Run α)
  countStep : P countStep
  bind : ∀ {α β : Type} {p : Run α} {f : α → Run β}, P p → (∀ a, P (f a)) → P (p >>= f)
  tryCatch : ∀ {α : Type} {p : Run α} {handle : Fault → Run α}, P p →
    (∀ fault, (∀ cap, fault ≠ .stepLimit cap) → P (handle fault)) →
    (∀ cap, handle (.stepLimit cap) = throw (.stepLimit cap)) → P (tryCatch p handle)

namespace Law

variable {P : {α : Type} → Run α → Prop}

theorem passing (law : Law P) : Passing P where
  pure a := law.blind (.pure a)
  tooDeep := law.blind (.throw trivial)
  unfinished := law.unfinished
  countStep := law.countStep
  noteLine line := law.blind (blind_noteLine line)
  bind := law.bind
  tryCatch {_ _ handle} hp deep passes := by
    refine law.tryCatch hp (fun fault other => ?_) fun cap => passes _ (by simp)
    cases fault with
    | tooDeep => exact deep
    | stepLimit cap => exact absurd rfl (other cap)
    | unfinished =>
        rw [passes _ (by simp)]
        exact law.unfinished
    | _ =>
        rw [passes _ (by simp)]
        exact law.blind (.throw trivial)

/-- A law holds of whatever stands in a tree. -/
theorem covers (law : Law P) : Covers P (fun _ : Node ι => True) fun _ => True where
  value _ depth := law.blind (blind_valueOf depth _)
  act _ _ depth := law.blind (blind_act _ depth)
  ifThen _ := ⟨trivial, fun _ _ => trivial⟩
  ifElse _ := ⟨trivial, fun _ _ => trivial, fun _ _ => trivial⟩
  whileDo _ := ⟨trivial, fun _ _ => trivial⟩

theorem execute (law : Law P) (rounds : Nat) (program : List (Node ι)) :
    P (execute rounds program) :=
  law.passing.execute law.covers rounds fun _ _ => trivial

end Law

end SlangScript.Machine
