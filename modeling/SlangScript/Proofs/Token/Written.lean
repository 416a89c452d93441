import SlangScript.Proofs.Number.Agreement
import SlangScript.Proofs.Number.Written
import SlangScript.Proofs.Text.Quoted
import SlangScript.Token.Written

/-!
Written values. A written number gives the number back, and it shares few characters with the other
written values: not the quotes, not the marks that stand around a value, and not all of any word.
-/

namespace SlangScript

open Number Text

/-- The first place of a character splits a text. -/
theorem append_cons_inj {α : Type} {a : α} {front front' rest rest' : List α} (h : a ∉ front)
    (h' : a ∉ front') (same : front ++ a :: rest = front' ++ a :: rest') :
    front = front' ∧ rest = rest' := by
  induction front generalizing front' with
  | nil =>
      cases front' with
      | nil => exact ⟨rfl, (List.cons.inj same).2⟩
      | cons b front' => exact absurd (List.cons.inj same).1 (List.ne_of_not_mem_cons h')
  | cons b front ih =>
      cases front' with
      | nil => exact absurd (List.cons.inj same).1.symm (List.ne_of_not_mem_cons h)
      | cons b' front' =>
          obtain ⟨rfl, behind⟩ := List.cons.inj same
          obtain ⟨rfl, rest⟩ := ih (List.not_mem_of_not_mem_cons h)
            (List.not_mem_of_not_mem_cons h') behind
          exact ⟨rfl, rest⟩

theorem writtenNumber_inj {x y : Float} (h : writtenNumber x = writtenNumber y) : x = y := by
  have same := String.ofList_inj.mp h
  exact Option.some.inj ((read?_written x).symm.trans (same ▸ read?_written y))

/-- A character that is in no plain numeric text. -/
structure Foreign (c : Char) : Prop where
  digit : isDecimal c = false
  sign : c ∉ ['.', 'e', 'E', '+', '-']
  letter : c.toLower ∉ "infinitynan".toList

namespace Foreign

variable {c : Char} {text : List Char}

theorem digits {places : List Nat} (h : Foreign c) (inside : Digits text places) : c ∉ text :=
  fun member => Bool.false_ne_true (h.digit.symm.trans (inside.decimals c member))

theorem signs {negative : Bool} (h : Foreign c) (signed : Sign text negative) : c ∉ text := by
  have other := h.sign
  cases signed with
  | absent => exact List.not_mem_nil
  | plus | minus => exact fun member => other (by simp_all)

theorem fraction {places : List Nat} (h : Foreign c) (inside : Fraction text places) :
    c ∉ text := by
  cases inside with
  | absent => exact List.not_mem_nil
  | point inside =>
      refine List.not_mem_cons_of_ne_of_not_mem ?_ (h.digits inside)
      rintro rfl
      exact h.sign (by decide)

theorem exponent {power : Int} (h : Foreign c) (inside : Exponent text power) : c ∉ text := by
  cases inside with
  | absent => exact List.not_mem_nil
  | mark mark power =>
      refine List.not_mem_cons_of_ne_of_not_mem ?_ ?_
      · rintro rfl
        exact h.sign (by rcases mark with rfl | rfl <;> decide)
      · cases power with
        | mk signed inside _ => exact List.not_mem_append (h.signs signed) (h.digits inside)

theorem words (h : Foreign c) {word : List Char} (same : text.map Char.toLower = word)
    (letters : word ⊆ "infinitynan".toList) : c ∉ text := fun member =>
  h.letter (letters (same ▸ List.mem_map_of_mem member))

theorem not_mem (h : Foreign c) {x : Float} (plain : PlainNumber text x) : c ∉ text := by
  cases plain with
  | decimal signed spelt =>
      cases spelt with
      | mk whole fraction _ exponent =>
          exact List.not_mem_append (h.signs signed) (List.not_mem_append (h.digits whole)
            (List.not_mem_append (h.fraction fraction) (h.exponent exponent)))
  | infinity signed word =>
      have letters : ∀ w ∈ infinityWords, w ⊆ "infinitynan".toList := by decide
      exact List.not_mem_append (h.signs signed) (h.words rfl (letters _ word))
  | nan signed word => exact List.not_mem_append (h.signs signed) (h.words word (by decide))

theorem not_mem_writtenNumber (h : Foreign c) (x : Float) : c ∉ (writtenNumber x).toList := by
  rw [writtenNumber, String.toList_ofList]
  exact h.not_mem (read?_eq_some_iff.mp (read?_written x))

end Foreign

theorem foreign_rparen : Foreign ')' := ⟨by decide, by decide, by decide⟩

theorem foreign_newline : Foreign '\n' := ⟨by decide, by decide, by decide⟩

theorem writtenNumber_ne {c : Char} {text : String} (h : Foreign c) (member : c ∈ text.toList)
    (x : Float) : writtenNumber x ≠ text := by
  rintro rfl
  exact h.not_mem_writtenNumber x member

theorem newline_not_mem_writtenFlag (value : Bool) : '\n' ∉ (writtenFlag value).toList := by
  cases value <;> decide

theorem newline_not_mem_quoted (text : String) : '\n' ∉ (quoted text).toList := by
  rw [toList_quoted]
  exact Quoted.newline_not_mem_encode text.toList

end SlangScript
