/-!
Lines of a text that was read from outside. A carriage return, alone or before a line feed, ends a
line as a line feed does; no other character does.
-/

namespace SlangScript.Text

/-- A text with every line break written as one line feed. -/
def unifyBreaks : List Char → List Char
  | [] => []
  | '\r' :: '\n' :: rest => '\n' :: unifyBreaks rest
  | c :: rest => (if c = '\r' then '\n' else c) :: unifyBreaks rest

/-- The lines of a text without their line feeds; text after the last line feed is a line. -/
def lines : List Char → List (List Char)
  | [] => []
  | '\n' :: rest => [] :: lines rest
  | c :: rest =>
    match lines rest with
    | [] => [[c]]
    | line :: more => (c :: line) :: more

/-- No carriage return is left. -/
theorem not_mem_unifyBreaks (text : List Char) : '\r' ∉ unifyBreaks text := by
  fun_induction unifyBreaks text with
  | case1 => simp
  | case2 rest ih => simpa using ih
  | case3 c rest _ ih =>
    by_cases h : c = '\r'
    · simpa [h] using ih
    · simp [h, ih, Ne.symm h]

theorem unifyBreaks_of_not_mem {text : List Char} (h : '\r' ∉ text) : unifyBreaks text = text := by
  fun_induction unifyBreaks text with
  | case1 => rfl
  | case2 => simp at h
  | case3 c rest _ ih =>
    rw [List.mem_cons, not_or] at h
    rw [if_neg (Ne.symm h.1), ih h.2]

/-- A line holds no line feed. -/
theorem not_mem_of_mem_lines {text line : List Char} (h : line ∈ lines text) : '\n' ∉ line := by
  fun_induction lines text generalizing line with
  | case1 => simp at h
  | case2 rest ih =>
    rcases List.mem_cons.1 h with rfl | h
    · simp
    · exact ih h
  | case3 c rest notBreak _ ih =>
    have : c ≠ '\n' := notBreak
    simp_all [Ne.symm this]
  | case4 c rest notBreak line more eq ih =>
    have : c ≠ '\n' := notBreak
    simp only [eq, List.mem_cons, forall_eq_or_imp] at h ih
    rcases h with rfl | h
    · simp [Ne.symm this, ih.1]
    · exact ih.2 _ h

end SlangScript.Text
