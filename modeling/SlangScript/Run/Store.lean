import SlangScript.Value.Basic

/-!
The store of a running program: the names that are bound, in the order of their characters, each
with its value. A name that is not bound counts as zero.
-/

namespace SlangScript

structure Store where
  entries : List (String × Value) := []
  deriving DecidableEq

namespace Store

/-- The value of the first entry for a name. -/
def find? (name : String) : List (String × Value) → Option Value
  | [] => none
  | (other, value) :: rest => if other = name then some value else find? name rest

def get? (s : Store) (name : String) : Option Value := find? name s.entries

/-- What an unbound name counts as. -/
def unbound : Value := .number 0

/-- The value a name counts as. -/
def lookup (s : Store) (name : String) : Value := (s.get? name).getD unbound

/-- Entries with a name bound anew, before the first name that is greater. -/
def insert (name : String) (value : Value) : List (String × Value) → List (String × Value)
  | [] => [(name, value)]
  | (other, old) :: rest =>
    if other = name then (name, value) :: rest
    else if name < other then (name, value) :: (other, old) :: rest
    else (other, old) :: insert name value rest

/-- The store with a name bound to a value. -/
def bind (s : Store) (name : String) (value : Value) : Store := ⟨insert name value s.entries⟩

/-- The store of some bindings, of which a later one for the same name wins. -/
def ofList (bindings : List (String × Value)) : Store :=
  bindings.foldl (fun s (name, value) => s.bind name value) {}

theorem find?_cons (name other : String) (value : Value) (rest : List (String × Value)) :
    find? name ((other, value) :: rest) = if name = other then some value else find? name rest := by
  simp only [find?, eq_comm]

theorem find?_insert (name other : String) (value : Value) (entries : List (String × Value)) :
    find? other (insert name value entries) =
      if other = name then some value else find? other entries := by
  induction entries with
  | nil => simp [insert, find?_cons, find?]
  | cons entry rest ih =>
    obtain ⟨key, old⟩ := entry
    unfold insert
    split
    · rename_i same
      subst same
      simp only [find?_cons]
      split <;> rfl
    split
    · rw [find?_cons]
    · rename_i apart _
      rw [find?_cons, find?_cons, ih]
      split
      · rename_i same
        subst same
        rw [if_neg apart]
      · rfl

/-- Binding a name changes the value of that name only. -/
@[simp] theorem get?_bind (s : Store) (name other : String) (value : Value) :
    (s.bind name value).get? other = if other = name then some value else s.get? other :=
  find?_insert name other value s.entries

end Store

end SlangScript
