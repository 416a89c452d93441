import SlangScript.Proofs.Node.Shape
import SlangScript.Value.Operation

/-!
What can go wrong with an operator that there is: only that a text which is plain numeric text by
its letters has no number. A division and a remainder always have a result, also by zero and of
infinity.
-/

namespace SlangScript

variable {ε ε' α β : Type}

/-- If there is no result, it is for an error of `errors`. -/
def Refuses (errors : ε → Prop) (result : Except ε α) : Prop :=
  ∀ error, result = .error error → errors error

namespace Refuses

variable {errors : ε → Prop}

theorem ok (a : α) : Refuses errors (.ok a) := fun _ same => nomatch same

theorem error {error : ε} (h : errors error) : Refuses errors (.error error : Except ε α) := by
  intro other same
  cases same
  exact h

theorem bind {result : Except ε α} {f : α → Except ε β} (h : Refuses errors result)
    (hf : ∀ a, Refuses errors (f a)) : Refuses errors (result >>= f) := by
  cases result with
  | error error => exact .error (h error rfl)
  | ok a => exact hf a

theorem mapError {errors : ε' → Prop} {f : ε → ε'} {result : Except ε α}
    (h : Refuses (fun error => errors (f error)) result) : Refuses errors (result.mapError f) := by
  cases result with
  | error error => exact .error (h error rfl)
  | ok a => exact .ok a

theorem foldlM {f : β → α → Except ε β} {items : List α} (start : β)
    (h : ∀ item ∈ items, ∀ b, Refuses errors (f b item)) :
    Refuses errors (items.foldlM f start) := by
  induction items generalizing start with
  | nil => exact .ok start
  | cons item items ih =>
      rw [List.foldlM_cons]
      exact (h item (.head _) start).bind fun next =>
        ih next fun other member => h other (.tail _ member)

end Refuses

/-- A text is plain numeric text by its letters, but no number is read from it. -/
def OperationError.Unreadable (error : OperationError) : Prop :=
  ∃ text : String, error = .unreadable ⟨text⟩ ∧ Number.matchesPlain text.toList = true ∧
    Number.read? text.toList = none

namespace Value

theorem operand_refuses (v : Value) : Refuses OperationError.Unreadable v.operand := by
  cases v with
  | number | flag => exact .ok _
  | text s =>
      refine .mapError ?_
      rw [toNumber]
      split
      · next plain =>
          split
          · exact .ok _
          · next none => exact .error ⟨s, rfl, plain, none⟩
      · exact .ok _

theorem operands_refuses (a b : Value) : Refuses OperationError.Unreadable (operands a b) :=
  (operand_refuses a).bind fun _ => (operand_refuses b).bind fun _ => .ok _

/-- Whatever is divided by zero has a quotient. -/
theorem exists_quotient (x y : Float) : ∃ z, quotient x y = .ok z := by
  unfold quotient divide
  split
  · exact ⟨_, rfl⟩
  · exact ⟨_, rfl⟩

/-- There is a remainder by zero and of infinity. -/
theorem exists_modulo (x y : Float) : ∃ z, modulo x y = .ok z := by
  unfold modulo
  split
  · exact ⟨_, rfl⟩
  · next regular =>
      obtain ⟨divisor, finite⟩ : (y == 0) = false ∧ x.isInf = false := by simpa using regular
      exact ⟨Number.remainder x y, by simp [remainder, divisor, finite]⟩

theorem add_refuses (a b : Value) : Refuses OperationError.Unreadable (add a b) := by
  unfold add
  split
  · exact .ok _
  · exact .ok _
  · exact (operands_refuses a b).bind fun _ => .ok _

/-- A binary operator that there is refuses unreadable texts only. -/
theorem binary_refuses {op : BinaryOp} (known : op ∈ BinaryOp.known) (a b : Value) :
    Refuses OperationError.Unreadable (a.binary op b) := by
  cases op with
  | unknown name => simp [BinaryOp.known] at known
  | add => exact add_refuses a b
  | eq | ne | and | or => exact .ok _
  | sub | mul | gt | lt | ge | le => exact (operands_refuses a b).bind fun _ => .ok _
  | div =>
      refine (operands_refuses a b).bind fun (x, y) => ?_
      obtain ⟨z, same⟩ := exists_quotient x y
      change Refuses _ (number <$> quotient x y)
      rw [same]
      exact .ok _
  | mod =>
      refine (operands_refuses a b).bind fun (x, y) => ?_
      obtain ⟨z, same⟩ := exists_modulo x y
      change Refuses _ (number <$> modulo x y)
      rw [same]
      exact .ok _

theorem unary_refuses {op : UnaryOp} (known : op ∈ UnaryOp.known) (a : Value) :
    Refuses OperationError.Unreadable (a.unary op) := by
  cases op with
  | unknown name => simp [UnaryOp.known] at known
  | not => exact .ok _
  | neg => exact (operand_refuses a).bind fun _ => .ok _

end Value

end SlangScript
