import SlangScript.Proofs.Token.Span

/-!
What text literals can say: all texts but those with a quote, or with a backslash in front of an n.
A line feed is written as itself or as a backslash and an n; a backslash itself cannot be escaped,
so one in front of an n is always such a line feed.
-/

namespace SlangScript

/-- A text that some literal says: it holds no quote, and nowhere a backslash in front of an n. -/
structure Sayable (said : List Char) : Prop where
  quote : '\x22' ∉ said
  feed : ¬['\\', 'n'] <:+: said

theorem sayable_cons {c : Char} {said : List Char} : Sayable (c :: said) ↔
    c ≠ '\x22' ∧ ¬(c = '\\' ∧ said.head? = some 'n') ∧ Sayable said := by
  have front : ['\\', 'n'] <+: c :: said ↔ c = '\\' ∧ said.head? = some 'n' := by
    rw [List.cons_prefix_cons, List.head?_eq_some_iff, eq_comm]
    exact and_congr_right fun _ => exists_congr fun _ => eq_comm
  have feed : ['\\', 'n'] <:+: c :: said ↔
      (c = '\\' ∧ said.head? = some 'n') ∨ ['\\', 'n'] <:+: said := by
    rw [List.infix_cons_iff, front]
  constructor
  · rintro ⟨quote, none⟩
    obtain ⟨here, behind⟩ := not_or.mp (mt List.mem_cons.mpr quote)
    obtain ⟨starts, inside⟩ := not_or.mp (mt feed.mpr none)
    exact ⟨Ne.symm here, starts, behind, inside⟩
  · rintro ⟨here, starts, behind, inside⟩
    refine ⟨fun quote => ?_, fun found => (feed.mp found).elim starts inside⟩
    exact (List.mem_cons.mp quote).elim (fun same => here same.symm) behind

theorem isSayable_iff {said : List Char} : IsSayable said ↔ Sayable said := by
  induction said with
  | nil => exact ⟨fun _ => ⟨by simp, by simp⟩, fun _ => trivial⟩
  | cons c said ih => rw [IsSayable, ih, sayable_cons]

theorem head?_unescaped {body : List Char} (h : (unescaped body).head? = some 'n') :
    body.head? = some 'n' := by
  fun_cases unescaped body with
  | case1 rest => cases h
  | case2 c rest plain => rwa [unescaped.eq_2 _ _ plain] at h
  | case3 => cases h

/-- Whatever stands between quotes says a sayable text. -/
theorem isSayable_unescaped {body : List Char} (h : '\x22' ∉ body) :
    IsSayable (unescaped body) := by
  fun_induction unescaped body with
  | case1 rest ih =>
      have inside : '\x22' ∉ rest := fun member => h (by simp [member])
      exact ⟨by decide, by simp, ih inside⟩
  | case2 c rest plain ih =>
      have quote : c ≠ '\x22' := fun same => h (by simp [same])
      have inside : '\x22' ∉ rest := fun member => h (by simp [member])
      refine ⟨quote, ?_, ih inside⟩
      rintro ⟨backslash, n⟩
      obtain ⟨tail, starts⟩ := List.head?_eq_some_iff.mp (head?_unescaped n)
      exact plain tail backslash starts
  | case3 => trivial

theorem sayable_of_denotes {slice behind : List Char} {said : String}
    (h : Denotes slice behind (.text said)) : Sayable said.toList := by
  generalize same : Lexeme.text said = lexeme at h
  cases h with
  | word => exact absurd same (ofWord_ne_literal _ (by simp [Lexeme.kind]))
  | closed inside | unclosed inside =>
      obtain rfl := Lexeme.text.inj same
      rw [String.toList_ofList]
      exact isSayable_iff.mp (isSayable_unescaped inside)
  | print | numeral | sign => cases same

/-- A text is said by the literals that it is written in, each of them one token, if it holds no
quote and no backslash in front of an n; and no literal of any source text says another one, whether
it has its closing quote or not. -/
theorem literals_say :
    (∀ {body said : String}, Sayable said.toList → Writes body.toList said.toList →
      (tokenize ("\x22" ++ body ++ "\x22")).map Token.lexeme = [.text said, .mark .eof]) ∧
    ∀ {source said : String} {t : Token}, t ∈ tokenize source → t.lexeme = .text said →
      Sayable said.toList := by
  refine ⟨@fun body said sayable writes => ?_, fun member same => ?_⟩
  · obtain ⟨inside, same⟩ := unescaped_of_writes writes (isSayable_iff.mpr sayable)
    have cuts := Cuts.whole (lexes_literal inside).alone
    have quoted : ("\x22" ++ body ++ "\x22").toList = '\x22' :: (body.toList ++ ['\x22']) := by simp
    rw [same, String.ofList_toList, ← quoted] at cuts
    exact lexemes_tokenize_of_cuts cuts
  · obtain ⟨slice, behind, denotes⟩ := denoted_of_mem_tokenize member (by simp [same])
    exact sayable_of_denotes (same ▸ denotes)

/-- Backslashes in front of both ways to write a line feed, of a letter n behind one, and of the
closing quote; and a literal that goes on to the end of the text. -/
theorem literals_say_backslashes :
    Sayable "\\\n\\\nn\\".toList ∧ Writes "\\\\n\\\nn\\".toList "\\\n\\\nn\\".toList ∧
      (tokenize ("\x22" ++ "\\\\n\\\nn\\" ++ "\x22")).map Token.lexeme =
        [.text "\\\n\\\nn\\", .mark .eof] ∧
      ⟨.text "\n\\", 1, 3⟩ ∈ tokenize "x \x22\\n\\" ∧ Sayable "\n\\".toList := by
  have sayable : Sayable "\\\n\\\nn\\".toList := ⟨by decide, by decide⟩
  have writes : Writes "\\\\n\\\nn\\".toList "\\\n\\\nn\\".toList :=
    .itself (.feed (.itself (.itself (.itself (.itself .nil)))))
  have member : (⟨.text "\n\\", 1, 3⟩ : Token) ∈ tokenize "x \x22\\n\\" := by decide
  exact ⟨sayable, writes, literals_say.1 sayable writes, member, literals_say.2 member rfl⟩

end SlangScript
