import SlangScript.Outline
import SlangScript.Proofs.Token.Written

/-!
Drawings of outlines can be read. Nothing closes what stands below a name: it ends where a line
stands further out. So an outline is known from its drawing if its names are labels and if what it
lists are lists and records, none of the records empty.
-/

namespace SlangScript.Outline

open Text

/-! ## Tidy outlines -/

/-- A name that ends at the colon behind it, and that is no mark of an item. -/
structure IsLabel (name : String) : Prop where
  colon : ':' ∉ name.toList
  newline : '\n' ∉ name.toList
  front : ∃ c ∈ name.toList.head?, c ≠ ' ' ∧ c ≠ '-'

inductive IsPlain : Outline → Prop
  | none : IsPlain .none
  | flag (value : Bool) : IsPlain (.flag value)
  | number (value : Float) : IsPlain (.number value)
  | text (value : String) : IsPlain (.text value)

mutual

/-- A list or a record that its drawing tells apart from the others. -/
inductive Tidy : Outline → Prop
  | list {items : List Outline} (each : ∀ item ∈ items, Tidy item) : Tidy (.list items)
  | record {name : String} {value : Outline} {rest : Fields}
      (fields : TidyFields (.cons name value rest)) : Tidy (.record (.cons name value rest))

inductive TidyFields : Fields → Prop
  | nil : TidyFields .nil
  | plain {name : String} {value : Outline} {rest : Fields} (label : IsLabel name)
      (plain : IsPlain value) (later : TidyFields rest) : TidyFields (.cons name value rest)
  | nested {name : String} {value : Outline} {rest : Fields} (label : IsLabel name)
      (tidy : Tidy value) (later : TidyFields rest) : TidyFields (.cons name value rest)

end

theorem TidyFields.parts {name : String} {value : Outline} {rest : Fields}
    (h : TidyFields (.cons name value rest)) :
    IsLabel name ∧ (IsPlain value ∨ Tidy value) ∧ TidyFields rest := by
  cases h with
  | plain label plain later => exact ⟨label, .inl plain, later⟩
  | nested label tidy later => exact ⟨label, .inr tidy, later⟩

theorem Tidy.afterName? {value : Outline} (h : Tidy value) : value.afterName? = Option.none := by
  cases h <;> rfl

/-! ## Plain values -/

theorem exists_foreign_writtenFlag (value : Bool) :
    ∃ c, Foreign c ∧ c ∈ (writtenFlag value).toList := by
  cases value
  · exact ⟨'l', ⟨by decide, by decide, by decide⟩, by decide⟩
  · exact ⟨'r', ⟨by decide, by decide, by decide⟩, by decide⟩

theorem exists_quote_quoted (text : String) :
    ∃ quote, Quoted.IsQuote quote ∧ quote ∈ (quoted text).toList := by
  refine ⟨_, Quoted.isQuote_quoteOf text.toList, ?_⟩
  rw [toList_quoted]
  exact List.mem_cons_self

theorem quoted_ne_writtenNumber (text : String) (x : Float) : writtenNumber x ≠ quoted text := by
  obtain ⟨quote, isQuote, member⟩ := exists_quote_quoted text
  refine writtenNumber_ne ?_ member x
  rcases isQuote with rfl | rfl <;> exact ⟨by decide, by decide, by decide⟩

theorem quoted_ne_word {text word : String} (h : word ∈ ["None", "True", "False"]) :
    quoted text ≠ word := by
  rintro rfl
  obtain ⟨quote, isQuote, member⟩ := exists_quote_quoted text
  have free : ∀ word ∈ ["None", "True", "False"], '\x27' ∉ word.toList ∧ '\x22' ∉ word.toList := by
    decide
  rcases isQuote with rfl | rfl
  · exact (free _ h).1 member
  · exact (free _ h).2 member

theorem writtenFlag_mem (value : Bool) : writtenFlag value ∈ ["None", "True", "False"] := by
  cases value <;> decide

theorem writtenFlag_ne_none (value : Bool) : writtenFlag value ≠ "None" := by
  cases value <;> decide

theorem writtenNumber_ne_none (x : Float) : writtenNumber x ≠ "None" :=
  writtenNumber_ne (c := 'o') ⟨by decide, by decide, by decide⟩ (by decide) x

theorem writtenNumber_ne_flag (x : Float) (value : Bool) : writtenNumber x ≠ writtenFlag value := by
  obtain ⟨c, isForeign, member⟩ := exists_foreign_writtenFlag value
  exact writtenNumber_ne isForeign member x

theorem writtenFlag_inj {value value' : Bool} (h : writtenFlag value = writtenFlag value') :
    value = value' := by
  revert value value'
  decide

/-- Plain values that look alike behind a name are the same. -/
theorem IsPlain.eq {value value' : Outline} (h : value.IsPlain) (h' : value'.IsPlain)
    (same : value.afterName? = value'.afterName?) : value = value' := by
  cases h with
  | none =>
      cases h' with
      | none => rfl
      | flag b => exact absurd (Option.some.inj same).symm (writtenFlag_ne_none b)
      | number x => exact absurd (Option.some.inj same).symm (writtenNumber_ne_none x)
      | text t => exact absurd (Option.some.inj same).symm (quoted_ne_word (by decide))
  | flag b =>
      cases h' with
      | none => exact absurd (Option.some.inj same) (writtenFlag_ne_none b)
      | flag b' => exact congrArg _ (writtenFlag_inj (Option.some.inj same))
      | number x => exact absurd (Option.some.inj same).symm (writtenNumber_ne_flag x b)
      | text t => exact absurd (Option.some.inj same).symm (quoted_ne_word (writtenFlag_mem b))
  | number x =>
      cases h' with
      | none => exact absurd (Option.some.inj same) (writtenNumber_ne_none x)
      | flag b => exact absurd (Option.some.inj same) (writtenNumber_ne_flag x b)
      | number y => exact congrArg _ (writtenNumber_inj (Option.some.inj same))
      | text t => exact absurd (Option.some.inj same) (quoted_ne_writtenNumber t x)
  | text t =>
      cases h' with
      | none => exact absurd (Option.some.inj same) (quoted_ne_word (by decide))
      | flag b => exact absurd (Option.some.inj same) (quoted_ne_word (writtenFlag_mem b))
      | number x => exact absurd (Option.some.inj same).symm (quoted_ne_writtenNumber t x)
      | text t' => exact congrArg _ (quoted_inj (Option.some.inj same))

theorem IsPlain.afterName? {value : Outline} (h : value.IsPlain) :
    value.afterName? ≠ Option.none := by
  cases h <;> exact Option.some_ne_none _

/-! ## Lines -/

theorem toList_margin (indent : Nat) : (margin indent).toList = List.replicate (2 * indent) ' ' :=
  String.toList_ofList

/-- Behind the margin of a line stands no blank. -/
def StandsAt (indent : Nat) (line : String) : Prop :=
  ∃ c rest, line.toList = (margin indent).toList ++ c :: rest ∧ c ≠ ' '

theorem StandsAt.unique {i j : Nat} {line : String} (h : StandsAt i line) (h' : StandsAt j line) :
    i = j := by
  have front {k : Nat} (stands : StandsAt k line) :
      (line.toList.takeWhile (· == ' ')).length = 2 * k := by
    obtain ⟨c, rest, same, other⟩ := stands
    rw [same, toList_margin, List.takeWhile_append_of_pos (by simp)]
    simp [other]
  have lengths := (front h).symm.trans (front h')
  omega

/-- The lines that come next stand further out, if there are any. -/
def Ends (indent : Nat) (lines : List String) : Prop :=
  ∀ line ∈ lines.head?, ∃ j < indent, StandsAt j line

namespace Ends

variable {i j : Nat} {line : String} {behind : List String}

theorem nil (i : Nat) : Ends i [] := fun _ member => nomatch member

theorem mono (h : Ends i behind) (le : i ≤ j) : Ends j behind := by
  intro line member
  obtain ⟨k, less, stands⟩ := h line member
  exact ⟨k, Nat.lt_of_lt_of_le less le, stands⟩

theorem cons (h : StandsAt i line) : Ends (i + 1) (line :: behind) := by
  intro first member
  rw [← Option.some.inj member]
  exact ⟨i, Nat.lt_succ_self i, h⟩

theorem not_cons (h : StandsAt i line) : ¬Ends i (line :: behind) := by
  intro ends
  obtain ⟨j, less, stands⟩ := ends line rfl
  exact absurd (stands.unique h) (Nat.ne_of_lt less)

end Ends

theorem standsAt_item (i : Nat) : StandsAt i (margin i ++ "-") :=
  ⟨'-', [], String.toList_append, by decide⟩

/-- What a line says behind a name: a plain value, or that another one stands below. -/
def afterColon : Option String → String
  | some shown => ": " ++ shown
  | Option.none => ":"

theorem toList_afterColon (shown? : Option String) :
    ∃ rest, (afterColon shown?).toList = ':' :: rest := by
  cases shown? with
  | none => exact ⟨[], rfl⟩
  | some shown => exact ⟨' ' :: shown.toList, String.toList_append⟩

theorem afterColon_ne (shown : String) : afterColon (some shown) ≠ afterColon Option.none := by
  intro same
  have lengths := congrArg (fun line => line.toList.length) same
  have widths : ": ".toList.length = 2 ∧ ":".toList.length = 1 := by decide
  simp only [afterColon, String.toList_append, List.length_append] at lengths
  omega

theorem afterColon_inj {shown? shown?' : Option String} (h : afterColon shown? = afterColon shown?') :
    shown? = shown?' := by
  cases shown? with
  | none =>
      cases shown?' with
      | none => rfl
      | some shown' => exact absurd h.symm (afterColon_ne shown')
  | some shown =>
      cases shown?' with
      | none => exact absurd h (afterColon_ne shown)
      | some shown' => exact congrArg some ((String.append_right_inj _).mp h)

/-- What stands below a name. -/
def under (indent : Nat) (value : Outline) : List String :=
  match value.afterName? with
  | some _ => []
  | Option.none => lines indent value

theorem IsPlain.under {value : Outline} (h : value.IsPlain) (i : Nat) : under i value = [] := by
  cases h <;> rfl

theorem Tidy.under {value : Outline} (h : value.Tidy) (i : Nat) : under i value = lines i value := by
  cases h <;> rfl

theorem fieldLines_cons (i : Nat) (name : String) (value : Outline) (rest : Fields) :
    fieldLines i (.cons name value rest) =
      (margin i ++ name ++ afterColon value.afterName?) :: (under (i + 1) value ++ fieldLines i rest) := by
  rw [fieldLines, under]
  cases value.afterName? with
  | none => rfl
  | some shown => exact congrArg (· :: _) String.append_assoc

theorem IsLabel.standsAt {name : String} (h : IsLabel name) (i : Nat) (behind : String) :
    StandsAt i (margin i ++ name ++ behind) := by
  obtain ⟨c, first, other, -⟩ := h.front
  obtain ⟨rest, same⟩ := List.head?_eq_some_iff.mp first
  refine ⟨c, rest ++ behind.toList, ?_, other⟩
  rw [String.toList_append, String.toList_append, same, List.append_assoc, List.cons_append]

/-- A line of a field gives the name and what stands behind it. -/
theorem IsLabel.line_inj {name name' : String} (h : IsLabel name) (h' : IsLabel name') {i : Nat}
    {shown? shown?' : Option String}
    (same : margin i ++ name ++ afterColon shown? = margin i ++ name' ++ afterColon shown?') :
    name = name' ∧ shown? = shown?' := by
  obtain ⟨rest, colon⟩ := toList_afterColon shown?
  obtain ⟨rest', colon'⟩ := toList_afterColon shown?'
  have chars := congrArg String.toList same
  simp only [String.toList_append, List.append_assoc] at chars
  have shown := List.append_cancel_left chars
  rw [colon, colon'] at shown
  obtain ⟨names, behind⟩ := append_cons_inj h.colon h'.colon shown
  refine ⟨String.toList_inj.mp names, afterColon_inj (String.toList_inj.mp ?_)⟩
  rw [colon, colon', behind]

/-! ## Reading a drawing -/

variable {i : Nat} {behind behind' : List String}

/-- Whatever stands further out behind the drawing of a value, the drawing gives the value. -/
def Told (value : Outline) : Prop :=
  ∀ {value' : Outline} {i : Nat} {behind behind' : List String}, value'.Tidy → Ends i behind →
    Ends i behind' → lines i value ++ behind = lines i value' ++ behind' →
      value = value' ∧ behind = behind'

/-- The same of what stands below a name, once the line of the name is read. -/
def UnderTold (value : Outline) : Prop :=
  ∀ {value' : Outline} {i : Nat} {behind behind' : List String}, value'.IsPlain ∨ value'.Tidy →
    value.afterName? = value'.afterName? → Ends i behind → Ends i behind' →
      under i value ++ behind = under i value' ++ behind' → value = value' ∧ behind = behind'

def FieldsTold (fields : Fields) : Prop :=
  ∀ {fields' : Fields} {i : Nat} {behind behind' : List String}, TidyFields fields' →
    Ends i behind → Ends i behind' → fieldLines i fields ++ behind = fieldLines i fields' ++ behind' →
      fields = fields' ∧ behind = behind'

/-- What stands below a name ends at the next field, one step further out. -/
theorem TidyFields.ends {fields : Fields} (h : TidyFields fields) (ends : Ends i behind) :
    Ends (i + 1) (fieldLines i fields ++ behind) := by
  cases fields with
  | nil => exact ends.mono (Nat.le_succ i)
  | cons name value rest =>
      rw [fieldLines_cons]
      exact .cons (h.parts.1.standsAt i _)

theorem ends_itemLines (items : List Outline) (ends : Ends i behind) :
    Ends (i + 1) (itemLines i items ++ behind) := by
  cases items with
  | nil => exact ends.mono (Nat.le_succ i)
  | cons item items => exact .cons (standsAt_item i)

theorem itemLines_told {items items' : List Outline} (told : ∀ item ∈ items, Told item)
    (tidy' : ∀ item ∈ items', Tidy item) (ends : Ends i behind) (ends' : Ends i behind')
    (same : itemLines i items ++ behind = itemLines i items' ++ behind') :
    items = items' ∧ behind = behind' := by
  induction items generalizing items' with
  | nil =>
      cases items' with
      | nil => exact ⟨rfl, same⟩
      | cons item' items' =>
          rw [itemLines, List.nil_append] at same
          exact absurd (same ▸ ends) (Ends.not_cons (standsAt_item i))
  | cons item items ih =>
      obtain ⟨first, later⟩ := List.forall_mem_cons.mp told
      cases items' with
      | nil =>
          rw [itemLines, itemLines, List.nil_append] at same
          exact absurd (same ▸ ends') (Ends.not_cons (standsAt_item i))
      | cons item' items' =>
          obtain ⟨first', later'⟩ := List.forall_mem_cons.mp tidy'
          rw [itemLines, itemLines, List.cons_append, List.cons_append, List.append_assoc,
            List.append_assoc] at same
          obtain ⟨rfl, next⟩ := first first' (ends_itemLines items ends) (ends_itemLines items' ends')
            (List.cons.inj same).2
          obtain ⟨rfl, rest⟩ := ih later later' next
          exact ⟨rfl, rest⟩

theorem IsPlain.underTold {value : Outline} (h : value.IsPlain) : UnderTold value := by
  intro value' i behind behind' form shown _ _ same
  rcases form with plain' | tidy'
  · obtain rfl := h.eq plain' shown
    exact ⟨rfl, List.append_cancel_left same⟩
  · exact absurd (shown.trans tidy'.afterName?) h.afterName?

theorem Tidy.underTold {value : Outline} (h : value.Tidy) (told : Told value) :
    UnderTold value := by
  intro value' i behind behind' form shown ends ends' same
  rcases form with plain' | tidy'
  · exact absurd (shown.symm.trans h.afterName?) plain'.afterName?
  · rw [h.under, tidy'.under] at same
    exact told tidy' ends ends' same

namespace FieldsTold

theorem nil : FieldsTold .nil := by
  intro fields' i behind behind' tidy' ends _ same
  cases fields' with
  | nil => exact ⟨rfl, same⟩
  | cons name' value' rest' =>
      rw [fieldLines_cons, fieldLines, List.nil_append] at same
      exact absurd (same ▸ ends) (Ends.not_cons (tidy'.parts.1.standsAt i _))

theorem cons {name : String} {value : Outline} {rest : Fields} (label : IsLabel name)
    (known : UnderTold value) (tidy : TidyFields rest) (later : FieldsTold rest) :
    FieldsTold (.cons name value rest) := by
  intro fields' i behind behind' tidy' ends ends' same
  rw [fieldLines_cons, List.cons_append, List.append_assoc] at same
  cases fields' with
  | nil =>
      rw [fieldLines, List.nil_append] at same
      exact absurd (same ▸ ends') (Ends.not_cons (label.standsAt i _))
  | cons name' value' rest' =>
      obtain ⟨label', form, later'⟩ := tidy'.parts
      rw [fieldLines_cons, List.cons_append, List.append_assoc] at same
      obtain ⟨line, next⟩ := List.cons.inj same
      obtain ⟨rfl, shown⟩ := label.line_inj label' line
      obtain ⟨rfl, more⟩ := known form shown (tidy.ends ends) (later'.ends ends') next
      obtain ⟨rfl, rest⟩ := later later' ends ends' more
      exact ⟨rfl, rest⟩

end FieldsTold

theorem lines_list_nil (i : Nat) : lines i (.list []) = [""] := by
  rw [lines, itemLines]
  rfl

theorem lines_list_cons (i : Nat) (item : Outline) (items : List Outline) :
    lines i (.list (item :: items)) = itemLines i (item :: items) := by
  rw [lines, itemLines]
  rfl

theorem lines_record_cons (i : Nat) (name : String) (value : Outline) (rest : Fields) :
    lines i (.record (.cons name value rest)) = fieldLines i (.cons name value rest) := by
  rw [lines, fieldLines_cons]
  rfl

theorem StandsAt.ne_empty {line : String} (h : StandsAt i line) : line ≠ "" := by
  rintro rfl
  obtain ⟨c, rest, same, -⟩ := h
  exact absurd same.symm (by simp)

/-- A record is not drawn as a list is. -/
theorem IsLabel.fieldLines_ne {name : String} (label : IsLabel name) (value : Outline)
    (rest : Fields) (items : List Outline) :
    fieldLines i (.cons name value rest) ++ behind ≠ lines i (.list items) ++ behind' := by
  rw [fieldLines_cons]
  cases items with
  | nil =>
      rw [lines_list_nil]
      intro same
      exact (label.standsAt i _).ne_empty (List.cons.inj same).1
  | cons item items =>
      rw [lines_list_cons, itemLines]
      intro same
      have line := congrArg String.toList (List.cons.inj same).1
      obtain ⟨c, first, -, other⟩ := label.front
      obtain ⟨more, front⟩ := List.head?_eq_some_iff.mp first
      simp only [String.toList_append, List.append_assoc, front] at line
      exact other (List.cons.inj (List.append_cancel_left line)).1

namespace Told

theorem record {name : String} {value : Outline} {rest : Fields} (label : IsLabel name)
    (told : FieldsTold (.cons name value rest)) : Told (.record (.cons name value rest)) := by
  intro value' i behind behind' tidy' ends ends' same
  rw [lines_record_cons] at same
  cases tidy' with
  | list => exact absurd same (label.fieldLines_ne value rest _)
  | record fields' =>
      rw [lines_record_cons] at same
      obtain ⟨fields, behind⟩ := told fields' ends ends' same
      exact ⟨congrArg Outline.record fields, behind⟩

theorem list {items : List Outline} (told : ∀ item ∈ items, Told item) : Told (.list items) := by
  intro value' i behind behind' tidy' ends ends' same
  cases tidy' with
  | record fields' =>
      rw [lines_record_cons] at same
      exact absurd same.symm (fields'.parts.1.fieldLines_ne _ _ _)
  | @list items' each' =>
      cases items with
      | nil =>
          cases items' with
          | nil => exact ⟨rfl, List.append_cancel_left same⟩
          | cons item' items' =>
              rw [lines_list_nil, lines_list_cons, itemLines] at same
              exact absurd (List.cons.inj same).1.symm (standsAt_item i).ne_empty
      | cons item items =>
          cases items' with
          | nil =>
              rw [lines_list_nil, lines_list_cons, itemLines] at same
              exact absurd (List.cons.inj same).1 (standsAt_item i).ne_empty
          | cons item' items' =>
              rw [lines_list_cons, lines_list_cons] at same
              obtain ⟨items, behind⟩ := itemLines_told told each' ends ends' same
              exact ⟨congrArg Outline.list items, behind⟩

end Told

mutual

/-- The drawing of a tidy outline gives the outline. -/
theorem Tidy.told {value : Outline} : value.Tidy → Told value
  | .list each => Told.list fun item member => (each item member).told
  | .record fields => Told.record fields.parts.1 fields.told

theorem TidyFields.told {fields : Fields} : TidyFields fields → FieldsTold fields
  | .nil => FieldsTold.nil
  | .plain label plain later => FieldsTold.cons label plain.underTold later later.told
  | .nested label tidy later =>
      FieldsTold.cons label (tidy.underTold tidy.told) later later.told

end

/-! ## Line breaks -/

/-- No line of a list of lines has a break in it. -/
def Unbroken (lines : List String) : Prop := ∀ line ∈ lines, '\n' ∉ line.toList

theorem newline_not_mem_margin (i : Nat) : '\n' ∉ (margin i).toList := by
  rw [toList_margin]
  exact fun member => absurd (List.eq_of_mem_replicate member) (by decide)

namespace Unbroken

variable {line : String} {front more : List String}

theorem cons (h : '\n' ∉ line.toList) (h' : Unbroken more) : Unbroken (line :: more) :=
  List.forall_mem_cons.mpr ⟨h, h'⟩

theorem append (h : Unbroken front) (h' : Unbroken more) : Unbroken (front ++ more) :=
  List.forall_mem_append.mpr ⟨h, h'⟩

theorem orEmptyLine (h : Unbroken more) : Unbroken (orEmptyLine more) := by
  unfold Outline.orEmptyLine
  split
  · exact cons List.not_mem_nil nofun
  · exact h

theorem field {name : String} {value : Outline} {rest : Fields} (label : IsLabel name)
    (shown : ∀ text ∈ value.afterName?, '\n' ∉ text.toList) (h : Unbroken (under (i + 1) value))
    (h' : Unbroken (fieldLines i rest)) : Unbroken (fieldLines i (.cons name value rest)) := by
  have after : '\n' ∉ (afterColon value.afterName?).toList := by
    cases found : value.afterName? with
    | none => decide
    | some text =>
        rw [afterColon, String.toList_append]
        exact List.not_mem_append (by decide) (shown text found)
  rw [fieldLines_cons]
  refine cons ?_ (h.append h')
  rw [String.toList_append, String.toList_append]
  exact List.not_mem_append (List.not_mem_append (newline_not_mem_margin i) label.newline) after

theorem items {items : List Outline} (each : ∀ item ∈ items, Unbroken (lines (i + 1) item)) :
    Unbroken (itemLines i items) := by
  induction items with
  | nil => exact nofun
  | cons item items ih =>
      obtain ⟨first, later⟩ := List.forall_mem_cons.mp each
      rw [itemLines]
      refine (cons ?_ first).append (ih later)
      rw [String.toList_append]
      exact List.not_mem_append (newline_not_mem_margin i) (by decide)

end Unbroken

theorem IsPlain.newline_not_mem {value : Outline} (h : value.IsPlain) :
    ∀ text ∈ value.afterName?, '\n' ∉ text.toList := by
  rintro text member
  cases h with
  | none =>
      obtain rfl := Option.some.inj member
      decide
  | flag value =>
      obtain rfl := Option.some.inj member
      exact newline_not_mem_writtenFlag value
  | number value =>
      obtain rfl := Option.some.inj member
      exact foreign_newline.not_mem_writtenNumber value
  | text value =>
      obtain rfl := Option.some.inj member
      exact newline_not_mem_quoted value

mutual

theorem Tidy.unbroken {value : Outline} : value.Tidy → ∀ i, Unbroken (lines i value)
  | .list each, i => by
      rw [lines]
      exact .orEmptyLine (.items fun item member => (each item member).unbroken (i + 1))
  | .record fields, i => by
      rw [lines]
      exact .orEmptyLine (fields.unbroken i)

theorem TidyFields.unbroken {fields : Fields} : TidyFields fields → ∀ i, Unbroken (fieldLines i fields)
  | .nil, _ => nofun
  | .plain label plain later, i =>
      .field label plain.newline_not_mem (plain.under (i + 1) ▸ nofun) (later.unbroken i)
  | .nested label tidy later, i => by
      refine .field label ?_ (tidy.under (i + 1) ▸ tidy.unbroken (i + 1)) (later.unbroken i)
      rw [tidy.afterName?]
      nofun

end

theorem Tidy.lines_ne_nil {value : Outline} (h : value.Tidy) (i : Nat) : lines i value ≠ [] := by
  cases h with
  | @list items each =>
      cases items with
      | nil => rw [lines_list_nil]; exact List.cons_ne_nil _ _
      | cons item items => rw [lines_list_cons, itemLines]; exact List.cons_ne_nil _ _
  | record => rw [lines_record_cons, fieldLines_cons]; exact List.cons_ne_nil _ _

/-- The lines of a drawing are those that its line breaks part. -/
theorem Tidy.splitOn_render {value : Outline} (h : value.Tidy) (i : Nat) :
    (value.render i).toList.splitOn '\n' = (lines i value).map String.toList := by
  have unbroken : ∀ line ∈ (lines i value).map String.toList, '\n' ∉ line :=
    List.forall_mem_map.mpr (h.unbroken i)
  rw [render, String.toList_intercalate]
  exact List.splitOn_intercalate '\n' unbroken (mt List.map_eq_nil_iff.mp (h.lines_ne_nil i))

/-- Tidy outlines that are drawn alike are the same. -/
theorem Tidy.render_inj {value value' : Outline} (h : value.Tidy) (h' : value'.Tidy) {i : Nat}
    (same : value.render i = value'.render i) : value = value' := by
  have lines : lines i value = lines i value' := by
    refine List.map_injective_iff.mpr (fun _ _ => String.toList_inj.mp) ?_
    rw [← h.splitOn_render, ← h'.splitOn_render, same]
  exact (h.told h' (.nil i) (.nil i) (congrArg (· ++ []) lines)).1

end SlangScript.Outline

/-! ## Fields -/

namespace SlangScript.Fields

def ofPairs : List (String × Outline) → Fields
  | [] => .nil
  | (name, value) :: rest => .cons name value (ofPairs rest)

theorem ofPairs_inj {fields fields' : List (String × Outline)} (h : ofPairs fields = ofPairs fields') :
    fields = fields' := by
  induction fields generalizing fields' with
  | nil =>
      cases fields' with
      | nil => rfl
      | cons => cases h
  | cons field fields ih =>
      cases fields' with
      | nil => cases h
      | cons field' fields' =>
          obtain ⟨name, value, rest⟩ := Fields.cons.inj h
          rw [ih rest, Prod.ext name value]

/-- A new name goes to the end. -/
theorem put_ofPairs {name : String} {fields : List (String × Outline)} (value : Outline)
    (fresh : name ∉ fields.map Prod.fst) :
    (ofPairs fields).put name value = ofPairs (fields ++ [(name, value)]) := by
  induction fields with
  | nil => rfl
  | cons field fields ih =>
      rw [List.map_cons, List.mem_cons, not_or] at fresh
      rw [ofPairs, put, if_neg (Ne.symm fresh.1), ih fresh.2]
      rfl

theorem foldl_put_ofPairs (front later : List (String × Outline))
    (h : ((front ++ later).map Prod.fst).Nodup) :
    later.foldl (fun fields field => fields.put field.1 field.2) (ofPairs front) =
      ofPairs (front ++ later) := by
  induction later generalizing front with
  | nil => exact congrArg ofPairs (List.append_nil front).symm
  | cons field later ih =>
      have fresh : field.1 ∉ front.map Prod.fst := by
        rw [List.map_append, List.nodup_append] at h
        exact fun member => h.2.2 _ member _ List.mem_cons_self rfl
      rw [List.append_cons] at h ⊢
      rw [← ih _ h, ← put_ofPairs field.2 fresh]
      rfl

/-- Fields of different names stay as they are. -/
theorem ofList_eq_ofPairs {fields : List (String × Outline)} (h : (fields.map Prod.fst).Nodup) :
    ofList fields = ofPairs fields :=
  foldl_put_ofPairs [] fields h

theorem tidy_ofPairs {fields : List (String × Outline)}
    (h : ∀ field ∈ fields, Outline.IsLabel field.1 ∧ (field.2.IsPlain ∨ field.2.Tidy)) :
    Outline.TidyFields (ofPairs fields) := by
  induction fields with
  | nil => exact .nil
  | cons field fields ih =>
      obtain ⟨⟨label, form⟩, later⟩ := List.forall_mem_cons.mp h
      rcases form with plain | tidy
      · exact .plain label plain (ih later)
      · exact .nested label tidy (ih later)

end SlangScript.Fields
