import SlangScript.Stacked

/-!
Room on the stack. A computation that always goes to its end takes a fixed number of frames, and
gives nothing with room for fewer. A comparison may come to its end before that, at a difference.
-/

namespace SlangScript.Stacked

variable {α β : Type}

/-- The computation gives the value with room for so many frames, and nothing with less. -/
def Takes (x : Stacked α) (frames : Nat) (value : α) : Prop :=
  ∀ room, x room = if frames ≤ room then some value else none

namespace Takes

variable {x : Stacked α} {next : α → Stacked β} {frames frames' : Nat} {a : α} {b : β}

protected theorem pure (a : α) : Takes (pure a) 0 a := fun room => (if_pos (Nat.zero_le room)).symm

protected theorem bind (h : Takes x frames a) (h' : Takes (next a) frames' b) :
    Takes (x >>= next) (max frames frames') b := by
  intro room
  change (x room).bind (fun a => next a room) = _
  rw [h room]
  by_cases enough : frames ≤ room
  · rw [if_pos enough, Option.bind_some, h' room]
    simp only [Nat.max_le, enough, true_and]
  · rw [if_neg enough, if_neg (by omega), Option.bind_none]

/-- What is made of the value in the end takes no more. -/
theorem last (h : Takes x frames a) {f : α → β} : Takes (x >>= fun a => pure (f a)) frames (f a) := by
  have both : Takes (x >>= fun a => pure (f a)) (max frames 0) (f a) := h.bind (.pure (f a))
  rwa [Nat.max_zero] at both

protected theorem map (h : Takes x frames a) (f : α → β) : Takes (f <$> x) frames (f a) := by
  rw [← bind_pure_comp]
  exact h.last

protected theorem call (h : Takes x frames a) (calling : Nat) :
    Takes (call calling x) (calling + frames) a := by
  intro room
  unfold call
  by_cases enough : calling ≤ room
  · rw [if_pos enough, h (room - calling)]
    simp only [Nat.le_sub_iff_add_le enough, Nat.add_comm]
  · rw [if_neg enough, if_neg (by omega)]

theorem isSome_iff (h : Takes x frames a) (room : Nat) : (x room).isSome ↔ frames ≤ room := by
  rw [h room]
  split <;> simp [*]

end Takes

/-- A comparison of what takes `left` frames with what takes `right` frames, which finds out whether
`p` holds. It comes to its end with room for the fewer of them, but it does not find that `p` holds
without room for the more. -/
structure Decides (x : Stacked Bool) (left right : Nat) (p : Prop) : Prop where
  ends : ∀ room, min left right ≤ room → ∃ verdict, x room = some verdict
  sound : ∀ room verdict, x room = some verdict → (verdict = true ↔ p)
  whole : ∀ room, x room = some true → max left right ≤ room

namespace Decides

variable {x y : Stacked Bool} {left right left' right' : Nat} {p q : Prop}

protected theorem pure (b : Bool) : Decides (pure b) 0 0 (b = true) :=
  ⟨fun _ _ => ⟨b, rfl⟩, fun _ _ same => Option.some.inj same ▸ Iff.rfl, fun _ _ => Nat.zero_le _⟩

theorem congr (h : Decides x left right p) (iff : p ↔ q) : Decides x left right q :=
  ⟨h.ends, fun room verdict same => (h.sound room verdict same).trans iff, h.whole⟩

/-- Where a difference is found, it is no matter what is not compared any more. -/
theorem differ (h : Decides x left right p) (not : ¬p) (more : left ≤ left')
    (more' : right ≤ right') (not' : ¬q) : Decides x left' right' q := by
  refine ⟨fun room le => h.ends room (by omega), fun room verdict same => ?_, fun room same => ?_⟩
  · exact (h.sound room verdict same).trans (iff_of_false not not')
  · exact absurd ((h.sound room true same).mp rfl) not

/-- If `p` holds, the comparison takes all the frames and finds that it does. -/
theorem takes (h : Decides x left right p) (holds : p) (equal : left = right) :
    Takes x left true := by
  subst equal
  intro room
  by_cases enough : left ≤ room
  · obtain ⟨verdict, same⟩ := h.ends room (by omega)
    rw [if_pos enough, same, (h.sound room verdict same).mpr holds]
  · rw [if_neg enough, Option.eq_none_iff_forall_ne_some]
    intro verdict same
    have found := (h.sound room verdict same).mpr holds
    have := h.whole room (found ▸ same)
    omega

protected theorem call (h : Decides x left right p) (frames : Nat) :
    Decides (call frames x) (frames + left) (frames + right) p := by
  have within : ∀ {room verdict}, call frames x room = some verdict →
      frames ≤ room ∧ x (room - frames) = some verdict := by
    intro room verdict same
    unfold call at same
    split at same
    · exact ⟨‹_›, same⟩
    · cases same
  refine ⟨fun room le => ?_, fun room verdict same => h.sound _ verdict (within same).2,
    fun room same => ?_⟩
  · obtain ⟨verdict, same⟩ := h.ends (room - frames) (by omega)
    exact ⟨verdict, (if_pos (by omega)).trans same⟩
  · obtain ⟨le, same⟩ := within same
    have := h.whole _ same
    omega

/-- What comes second is compared only if there was no difference before. -/
theorem and_eq (x y : Stacked Bool) (room : Nat) :
    (x <&&> y) room = (x room).bind fun same => if same then y room else some false := by
  change (x room).bind _ = _
  congr
  funext same
  cases same <;> rfl

protected theorem and (h : Decides x left right p) (h' : Decides y left' right' q) :
    Decides (x <&&> y) (max left left') (max right right') (p ∧ q) := by
  refine ⟨fun room le => ?_, fun room verdict same => ?_, fun room same => ?_⟩
  · rw [and_eq]
    obtain ⟨first, same⟩ := h.ends room (by omega)
    rw [same]
    cases first with
    | false => exact ⟨false, rfl⟩
    | true => exact h'.ends room (by omega)
  all_goals
    rw [and_eq] at same
    obtain ⟨first, found, same⟩ := Option.bind_eq_some_iff.mp same
    have one := h.sound room first found
  · cases first with
    | false =>
        cases same
        exact iff_of_false nofun fun both => nomatch one.mpr both.1
    | true => exact (h'.sound room verdict same).trans (and_iff_right (one.mp rfl)).symm
  · cases first with
    | false => cases same
    | true =>
        have := h.whole room found
        have := h'.whole room same
        omega

/-- A plain value that is compared first takes no frames. -/
theorem value (h : Decides y left right q) (b : Bool) :
    Decides (pure b <&&> y) left right (b = true ∧ q) := by
  have both := (Decides.pure b).and h
  rwa [Nat.zero_max, Nat.zero_max] at both

end Decides

end SlangScript.Stacked
