import SlangScript.Proofs.Run.Action
import SlangScript.Proofs.Run.Evaluate

/-!
What the single actions of a machine do to its steps and to its cap. All but the taking of a step
leave both alone, and stop for reasons of their own only.
-/

namespace SlangScript.Machine

variable {ι α β : Type}

/-- An action that leaves the steps and the cap alone, and stops for reasons of its own only. -/
structure Aside (p : Run α) : Prop where
  steps : ∀ m, (outcome p m).2.steps = m.steps
  cap : ∀ m, (outcome p m).2.cap = m.cap
  faults : ∀ m, Refuses Fault.Local (outcome p m).1

namespace Aside

theorem pure (a : α) : Aside (pure a) := ⟨fun _ => rfl, fun _ => rfl, fun _ => .ok a⟩

theorem throw {fault : Fault} (h : fault.Local) : Aside (throw fault : Run α) :=
  ⟨fun _ => rfl, fun _ => rfl, fun _ => .error h⟩

theorem bind {p : Run α} {f : α → Run β} (hp : Aside p) (hf : ∀ a, Aside (f a)) :
    Aside (p >>= f) := by
  refine ⟨fun m => ?_, fun m => ?_, fun m => ?_⟩
  all_goals
    rcases first : outcome p m with ⟨fault | a, m₁⟩
  · rw [outcome_bind_error first, ← hp.steps m, first]
  · rw [outcome_bind_ok first, (hf a).steps m₁, ← hp.steps m, first]
  · rw [outcome_bind_error first, ← hp.cap m, first]
  · rw [outcome_bind_ok first, (hf a).cap m₁, ← hp.cap m, first]
  · rw [outcome_bind_error first]
    exact .error (hp.faults m fault (by rw [first]))
  · rw [outcome_bind_ok first]
    exact (hf a).faults m₁

theorem leads {p : Run α} (h : Aside p) {before : Machine → Prop} {causes : Fault → Prop}
    (only : ∀ m m' : Machine, m'.steps = m.steps → m'.cap = m.cap → before m → before m')
    (faults : ∀ m, Refuses causes (outcome p m).1) :
    Leads before p (fun _ => before) fun fault m => before m ∧ causes fault := by
  intro m given
  have kept := only m _ (h.steps m) (h.cap m) given
  have refuses := faults m
  rcases same : outcome p m with ⟨fault | a, m'⟩
  · rw [same] at kept refuses
    exact .inr ⟨fault, m', rfl, kept, refuses fault rfl⟩
  · rw [same] at kept
    exact .inl ⟨a, m', rfl, kept⟩

end Aside

theorem aside_valueOf (depth : Nat) (expression : Node ι) : Aside (valueOf depth expression) :=
  ⟨fun _ => rfl, fun _ => rfl, fun m => evaluate_local m.store depth expression⟩

theorem aside_printLine (line : String) : Aside (printLine line) :=
  ⟨fun _ => rfl, fun _ => rfl, fun _ => .ok ()⟩

theorem aside_noteLine (line : String) : Aside (noteLine line) :=
  ⟨fun _ => rfl, fun _ => rfl, fun _ => .ok ()⟩

theorem aside_bindTo (depth : Nat) (name : String) (expression : Node ι) :
    Aside (bindTo depth name expression) :=
  (aside_valueOf depth expression).bind fun _ => ⟨fun _ => rfl, fun _ => rfl, fun _ => .ok ()⟩

theorem aside_act (node : Node ι) (depth : Nat) : Aside (act node depth) := by
  cases node with
  | declare tag name value | assign tag name value =>
      exact (aside_bindTo depth name value).bind fun _ => .pure _
  | print tag value =>
      exact (aside_valueOf depth value).bind fun _ => (aside_printLine _).bind fun _ => .pure _
  | debugPrint tag value =>
      exact (aside_valueOf depth value).bind fun _ => (aside_noteLine _).bind fun _ => .pure _
  | breakOut | continueOn => exact .pure _
  | _ => exact .throw trivial

theorem outcome_countStep_none {m : Machine} (h : m.cap = none) :
    outcome countStep m = (.ok (), m) := by
  obtain ⟨store, out, err, steps, _⟩ := m
  cases h
  rfl

/-- A step on a machine with a cap is counted, and stops the run beyond the cap. -/
theorem outcome_countStep_some {m : Machine} {cap : Int} (h : m.cap = some cap) :
    outcome countStep m = (if cap < m.steps + 1 then .error (.stepLimit cap) else .ok (),
      { m with steps := m.steps + 1 }) := by
  obtain ⟨store, out, err, steps, _⟩ := m
  cases h
  change outcome (if cap < steps + 1 then throw (Fault.stepLimit cap) else pure () : Run Unit)
    (Machine.mk store out err (steps + 1) (some cap)) = _
  split <;> rfl

end SlangScript.Machine
