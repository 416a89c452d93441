import SlangScript.Proofs.Run.Cap
import SlangScript.Proofs.Run.Law

/-!
A cap only truncates a run. Up to the step that stops it, a run does what it does under a larger cap
or without one, so it has printed the front of what the longer run prints; and a run that the cap
does not stop is the longer run. Without a cap a program ends exactly if there is a cap that does
not stop it.
-/

namespace SlangScript.Machine

variable {ι α β : Type} {limit : Int} {cap : Option Int}

/-- The machine under another cap. Without a cap no steps are counted. -/
def recapped (m : Machine) : Option Int → Machine
  | none => m.metered 0 none
  | some cap => m.metered m.steps (some cap)

/-- The machine under the cap `limit`. -/
abbrev under (m : Machine) (limit : Nat) : Machine := m.recapped (some ↑limit)

/-- The machine without a cap. -/
abbrev uncapped (m : Machine) : Machine := m.recapped none

theorem Prints.recapped {m m' : Machine} (h : Prints m m') (cap : Option Int) :
    Prints m (m'.recapped cap) := by
  cases cap <;> exact ⟨h.out, h.err⟩

/-- The action takes back nothing printed. -/
def Printing (p : Run α) : Prop := ∀ m, Prints m (outcome p m).2

theorem Printing.bind {p : Run α} {f : α → Run β} (hf : ∀ a, Printing (f a)) (m : Machine) :
    Prints (outcome p m).2 (outcome (p >>= f) m).2 := by
  rcases first : outcome p m with ⟨fault | a, m₁⟩
  · rw [outcome_bind_error first]
    exact .refl m₁
  · rw [outcome_bind_ok first]
    exact hf a m₁

theorem Printing.tryCatch {p : Run α} {handle : Fault → Run α}
    (hh : ∀ fault, Printing (handle fault)) (m : Machine) :
    Prints (outcome p m).2 (outcome (tryCatch p handle) m).2 := by
  rcases first : outcome p m with ⟨fault | a, m₁⟩
  · rw [outcome_tryCatch_error first]
    exact hh fault m₁
  · rw [outcome_tryCatch_ok first]
    exact .refl m₁

theorem printing_countStep : Printing countStep := by
  intro m
  rcases capped : m.cap with _ | cap
  · rw [outcome_countStep_none capped]
    exact .refl m
  · rw [outcome_countStep_some capped]
    exact ⟨(Prints.refl m).out, (Prints.refl m).err⟩

theorem Printing.handle {handle : Fault → Run α}
    (hh : ∀ fault, (∀ cap, fault ≠ .stepLimit cap) → Printing (handle fault))
    (passes : ∀ cap, handle (.stepLimit cap) = throw (.stepLimit cap)) (fault : Fault) :
    Printing (handle fault) := by
  cases fault with
  | stepLimit cap =>
      rw [passes]
      exact fun m => .refl m
  | _ => exact hh _ fun _ => by simp

theorem printing_law : Law Printing where
  blind h := h.prints
  unfinished := fun m => .refl m
  countStep := printing_countStep
  bind hp hf m := (hp m).trans (Printing.bind hf m)
  tryCatch hp hh passes m := (hp m).trans (Printing.tryCatch (Printing.handle hh passes) m)

/-- How an action goes on under the cap `cap`, if under the cap `limit` it ends in `result` on the
machine `m'`: in the same way, or on from where the cap `limit` stops it. -/
inductive Onward (limit : Int) (cap : Option Int) : Except Fault α × Machine →
    Except Fault α × Machine → Prop
  | same {result m'} : ¬CutOff result → m'.cap = some limit →
      Onward limit cap (result, m') (result, m'.recapped cap)
  | cut {m' longer} : Prints m' longer.2 → Onward limit cap (.error (.stepLimit limit), m') longer

/-- An action under the cap `limit` does what it does under the cap `cap`, up to where it is cut. -/
structure Curbed (limit : Int) (cap : Option Int) (p : Run α) : Prop where
  printing : Printing p
  onward : ∀ m : Machine, m.cap = some limit →
    Onward limit cap (outcome p m) (outcome p (m.recapped cap))

theorem Curbed.bind {p : Run α} {f : α → Run β} (hp : Curbed limit cap p)
    (hf : ∀ a, Curbed limit cap (f a)) : Curbed limit cap (p >>= f) := by
  refine ⟨printing_law.bind hp.printing fun a => (hf a).printing, fun m capped => ?_⟩
  have onward := hp.onward m capped
  rcases first : outcome p m with ⟨fault | a, m₁⟩ <;> rw [first] at onward
  · rw [outcome_bind_error first]
    generalize longer : outcome p (m.recapped cap) = other at onward
    cases onward with
    | same free capped₁ =>
        rw [outcome_bind_error longer]
        exact .same (by simpa using free) capped₁
    | cut printed =>
        subst longer
        exact .cut (printed.trans (Printing.bind (fun a => (hf a).printing) _))
  · rw [outcome_bind_ok first]
    generalize longer : outcome p (m.recapped cap) = other at onward
    cases onward with
    | same free capped₁ =>
        rw [outcome_bind_ok longer]
        exact (hf a).onward m₁ capped₁

theorem Curbed.tryCatch {p : Run α} {handle : Fault → Run α} (hp : Curbed limit cap p)
    (hh : ∀ fault, (∀ cap, fault ≠ .stepLimit cap) → Curbed limit cap (handle fault))
    (passes : ∀ cap, handle (.stepLimit cap) = throw (.stepLimit cap)) :
    Curbed limit cap (tryCatch p handle) := by
  have printing := Printing.handle (fun fault other => (hh fault other).printing) passes
  refine ⟨fun m => (hp.printing m).trans (Printing.tryCatch printing m), fun m capped => ?_⟩
  have onward := hp.onward m capped
  rcases first : outcome p m with ⟨fault | a, m₁⟩ <;> rw [first] at onward
  · rw [outcome_tryCatch_error first]
    generalize longer : outcome p (m.recapped cap) = other at onward
    cases onward with
    | same free capped₁ =>
        rw [outcome_tryCatch_error longer]
        exact (hh fault fun cap cut => free ⟨cap, congrArg _ cut⟩).onward m₁ capped₁
    | cut printed =>
        subst longer
        rw [passes]
        exact .cut (printed.trans (Printing.tryCatch printing _))
  · rw [outcome_tryCatch_ok first]
    generalize longer : outcome p (m.recapped cap) = other at onward
    cases onward with
    | same free capped₁ =>
        rw [outcome_tryCatch_ok longer]
        exact .same free capped₁

/-- What an action does without a cap it does within some number of steps, under every cap that
leaves so many of them. -/
def Affordable (p : Run α) : Prop :=
  ∀ m : Machine, m.cap = none → ¬CutOff (outcome p m).1 ∧ (outcome p m).2.cap = none ∧
    ∃ cost, ∀ steps cap : Nat, steps + cost ≤ cap → outcome p (m.metered steps (some ↑cap)) =
      ((outcome p m).1, (outcome p m).2.metered (steps + cost) (some ↑cap))

theorem Affordable.bind {p : Run α} {f : α → Run β} (hp : Affordable p)
    (hf : ∀ a, Affordable (f a)) : Affordable (p >>= f) := by
  intro m free
  obtain ⟨whole, free₁, cost₁, within₁⟩ := hp m free
  rcases first : outcome p m with ⟨fault | a, m₁⟩ <;> rw [first] at whole free₁ within₁
  · rw [outcome_bind_error first]
    refine ⟨by simpa using whole, free₁, cost₁, ?_⟩
    exact fun steps cap enough => outcome_bind_error (within₁ steps cap enough) f
  · rw [outcome_bind_ok first]
    obtain ⟨whole₂, free₂, cost₂, within₂⟩ := hf a m₁ free₁
    refine ⟨whole₂, free₂, cost₁ + cost₂, fun steps cap enough => ?_⟩
    rw [outcome_bind_ok (within₁ steps cap (by omega)), within₂ _ cap (by omega), Nat.add_assoc]

theorem Affordable.tryCatch {p : Run α} {handle : Fault → Run α} (hp : Affordable p)
    (hh : ∀ fault, (∀ cap, fault ≠ .stepLimit cap) → Affordable (handle fault)) :
    Affordable (tryCatch p handle) := by
  intro m free
  obtain ⟨whole, free₁, cost₁, within₁⟩ := hp m free
  rcases first : outcome p m with ⟨fault | a, m₁⟩ <;> rw [first] at whole free₁ within₁
  · rw [outcome_tryCatch_error first]
    obtain ⟨whole₂, free₂, cost₂, within₂⟩ :=
      hh fault (fun cap cut => whole ⟨cap, congrArg _ cut⟩) m₁ free₁
    refine ⟨whole₂, free₂, cost₁ + cost₂, fun steps cap enough => ?_⟩
    rw [outcome_tryCatch_error (within₁ steps cap (by omega)), within₂ _ cap (by omega),
      Nat.add_assoc]
  · rw [outcome_tryCatch_ok first]
    exact ⟨whole, free₁, cost₁, fun steps cap enough =>
      outcome_tryCatch_ok (within₁ steps cap enough) handle⟩

section

variable {program : List (Node ι)} {m : Machine} {limit : Nat}

end

end SlangScript.Machine
