/-!
Recursion on the stack of the host. The stack has a fixed number of frames; what recurses takes some
of them with each call, and gives nothing where they run out. What the host does with plain values,
such as the texts and numbers of a tree, is taken to need none.
-/

namespace SlangScript

/-- A computation that gives an `α`, or nothing, with room for so many frames. -/
abbrev Stacked (α : Type) : Type := ReaderT Nat Option α

namespace Stacked

/-- The host's recursion limit, in frames. -/
def recursionLimit : Nat := 1000

/-- A call that takes so many frames and leaves the others to its body. -/
def call {α : Type} (frames : Nat) (body : Stacked α) : Stacked α := fun room =>
  if frames ≤ room then body (room - frames) else none

end Stacked

/-- The frames that a walk over a tree takes for a node and for a list of nodes, beside those for
what is in them. -/
structure Walk where
  node : Nat
  list : Nat

namespace Walk

/-- To write a node the host is asked for its text; it calls the node, which goes through its fields
in a frame of their own. -/
def writing : Walk := ⟨4, 1⟩

/-- To compare two nodes the host is asked, calls the first one, and is asked again for the
fields. -/
def comparing : Walk := ⟨3, 1⟩

/-- A list is described in one frame and its items are gone through in another. -/
def describing : Walk := ⟨1, 2⟩

end Walk

end SlangScript
