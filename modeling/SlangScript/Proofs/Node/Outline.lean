import SlangScript.Proofs.Node.Written
import SlangScript.Proofs.Outline

/-!
Outlines of programs. A program has a tidy outline, and the outline gives the program but for its
tags: the first field of a record is the type of the node, and the others are its parts.
-/

namespace SlangScript

namespace Node

variable {ι κ : Type}

/-! ## Records -/

/-- The names of the fields of records. -/
def fieldNames : List String :=
  ["value", "name", "op", "left", "right", "expr", "condition", "then_block", "else_block", "body"]

theorem isLabel_of_mem {name : String} (h : name ∈ "type" :: fieldNames) : Outline.IsLabel name := by
  have all : ∀ name ∈ "type" :: fieldNames, ':' ∉ name.toList ∧ '\n' ∉ name.toList ∧
      name.toList.head?.any (fun c => c ≠ ' ' ∧ c ≠ '-') = true := by decide
  obtain ⟨colon, newline, front⟩ := all name h
  obtain ⟨c, first, other⟩ := (Option.any_eq_true _ _).mp front
  exact ⟨colon, newline, c, first, of_decide_eq_true other⟩

/-- The names of a record are different ones of those. -/
def Named (fields : List (String × Outline)) : Prop :=
  (fields.map Prod.fst).Nodup ∧ fields.map Prod.fst ⊆ fieldNames

theorem Named.record_eq {fields : List (String × Outline)} (h : Named fields) (type : String) :
    record type fields = .record (.ofPairs (("type", .text type) :: fields)) := by
  have fresh : "type" ∉ fields.map Prod.fst := fun member =>
    absurd (h.2 member) (show "type" ∉ fieldNames by decide)
  exact congrArg Outline.record (Fields.ofList_eq_ofPairs (List.nodup_cons.mpr ⟨fresh, h.1⟩))

theorem Named.tidy {fields : List (String × Outline)} (h : Named fields) (type : String)
    (each : ∀ field ∈ fields, field.2.IsPlain ∨ field.2.Tidy) : (record type fields).Tidy := by
  rw [h.record_eq]
  refine .record (.plain (isLabel_of_mem List.mem_cons_self) (.text type)
    (Fields.tidy_ofPairs fun field member => ⟨?_, each field member⟩))
  exact isLabel_of_mem (List.mem_cons_of_mem _ (h.2 (List.mem_map_of_mem member)))

theorem Named.record_inj {fields fields' : List (String × Outline)} {type type' : String}
    (h : Named fields) (h' : Named fields') (same : record type fields = record type' fields') :
    type = type' ∧ fields = fields' := by
  rw [h.record_eq, h'.record_eq] at same
  obtain ⟨first, later⟩ := List.cons.inj (Fields.ofPairs_inj (Outline.record.inj same))
  exact ⟨Outline.text.inj (Prod.mk.inj first).2, later⟩

/-! ## Parts of a node -/

/-- The fields that the record of a node has besides its type. -/
def parts : Node ι → List (String × Outline)
  | .number _ value => [("value", .number value)]
  | .text _ value => [("value", .text value)]
  | .flag _ value => [("value", .flag value)]
  | .var _ name => [("name", .text name)]
  | .binary _ left op right =>
    [("op", .text op.text), ("left", outline left), ("right", outline right)]
  | .unary _ op operand => [("op", .text op.text), ("expr", outline operand)]
  | .declare _ name value | .assign _ name value =>
    [("name", .text name), ("value", outline value)]
  | .print _ value | .debugPrint _ value => [("expr", outline value)]
  | .ifThen _ condition body =>
    [("condition", outline condition), ("then_block", outlineAll body), ("else_block", .none)]
  | .ifElse _ condition yes no =>
    [("condition", outline condition), ("then_block", outlineAll yes),
      ("else_block", outlineAll no)]
  | .whileDo _ condition body => [("condition", outline condition), ("body", outlineAll body)]
  | .breakOut _ | .continueOn _ | .bare _ | .missing => []

theorem named_parts (node : Node ι) : Named node.parts := by
  cases node <;> simp [Named, parts, fieldNames]

/-- A node whose outline is the record of its parts. -/
def IsRecord (node : Node ι) : Prop := outline node = record node.typeName node.parts

theorem IsExpression.isRecord {node : Node ι} (h : node.IsExpression) : node.IsRecord := by
  cases h <;> rfl

theorem IsStatement.isRecord {node : Node ι} (h : node.IsStatement) : node.IsRecord := by
  cases h <;> rfl

theorem IsRecord.tidy {node : Node ι} (h : node.IsRecord)
    (each : ∀ part ∈ node.parts, part.2.IsPlain ∨ part.2.Tidy) : (outline node).Tidy := by
  rw [h]
  exact (named_parts node).tidy _ each

theorem IsRecord.parts_eq {a : Node ι} {b : Node κ} (ha : a.IsRecord) (hb : b.IsRecord)
    (same : outline a = outline b) : a.typeName = b.typeName ∧ a.parts = b.parts := by
  rw [ha, hb] at same
  exact (named_parts a).record_inj (named_parts b) same

theorem outlineEach_eq_map (nodes : List (Node ι)) : outlineEach nodes = nodes.map outline := by
  induction nodes with
  | nil => rfl
  | cons node nodes ih => rw [outlineEach, ih, List.map_cons]

theorem tidy_outlineAll {nodes : List (Node ι)} (each : ∀ node ∈ nodes, (outline node).Tidy) :
    (outlineAll nodes).Tidy := by
  rw [outlineAll, outlineEach_eq_map]
  exact .list (List.forall_mem_map.mpr each)

/-! ## Tidy outlines -/

theorem IsExpression.tidy {node : Node ι} (h : node.IsExpression) : (outline node).Tidy := by
  induction h with
  | number tag value => exact (number tag value).isRecord.tidy (by simp [parts, Outline.IsPlain.number])
  | text tag value => exact (text tag value).isRecord.tidy (by simp [parts, Outline.IsPlain.text])
  | flag tag value => exact (flag tag value).isRecord.tidy (by simp [parts, Outline.IsPlain.flag])
  | var tag name => exact (var tag name).isRecord.tidy (by simp [parts, Outline.IsPlain.text])
  | binary known hl hr ihl ihr =>
      exact (binary known hl hr).isRecord.tidy (by simp [parts, Outline.IsPlain.text, ihl, ihr])
  | unary known h ih =>
      exact (unary known h).isRecord.tidy (by simp [parts, Outline.IsPlain.text, ih])

/-- A statement of a program has a tidy outline. -/
theorem IsStatement.tidy {node : Node ι} (h : node.IsStatement) : (outline node).Tidy := by
  induction h with
  | declare hv => exact (declare hv).isRecord.tidy (by simp [parts, Outline.IsPlain.text, hv.tidy])
  | assign hv => exact (assign hv).isRecord.tidy (by simp [parts, Outline.IsPlain.text, hv.tidy])
  | print hv => exact (print hv).isRecord.tidy (by simp [parts, hv.tidy])
  | debugPrint hv => exact (debugPrint hv).isRecord.tidy (by simp [parts, hv.tidy])
  | ifThen hc hb ih =>
      exact (ifThen hc hb).isRecord.tidy
        (by simp [parts, Outline.IsPlain.none, hc.tidy, tidy_outlineAll ih])
  | ifElse hc hy hn ihy ihn =>
      exact (ifElse hc hy hn).isRecord.tidy
        (by simp [parts, hc.tidy, tidy_outlineAll ihy, tidy_outlineAll ihn])
  | whileDo hc hb ih =>
      exact (whileDo hc hb).isRecord.tidy (by simp [parts, hc.tidy, tidy_outlineAll ih])
  | breakOut tag => exact (breakOut tag).isRecord.tidy (List.forall_mem_nil _)
  | continueOn tag => exact (continueOn tag).isRecord.tidy (List.forall_mem_nil _)

/-! ## What an outline gives -/

theorem field_cons_inj {name : String} {value value' : Outline}
    {fields fields' : List (String × Outline)} :
    (name, value) :: fields = (name, value') :: fields' ↔ value = value' ∧ fields = fields' := by
  rw [List.cons.injEq, Prod.mk.injEq, eq_self, true_and]

theorem IsExpression.outline_inj {a : Node ι} {b : Node κ} (ha : a.IsExpression)
    (hb : b.IsExpression) (same : outline a = outline b) : a.untag = b.untag := by
  induction ha generalizing b with
  | number tag value =>
      obtain ⟨names, same⟩ := (number tag value).isRecord.parts_eq hb.isRecord same
      cases hb with
      | number => simpa [parts, untag] using same
      | _ => simp [typeName] at names
  | text tag value =>
      obtain ⟨names, same⟩ := (text tag value).isRecord.parts_eq hb.isRecord same
      cases hb with
      | text => simpa [parts, untag] using same
      | _ => simp [typeName] at names
  | flag tag value =>
      obtain ⟨names, same⟩ := (flag tag value).isRecord.parts_eq hb.isRecord same
      cases hb with
      | flag => simpa [parts, untag] using same
      | _ => simp [typeName] at names
  | var tag name =>
      obtain ⟨names, same⟩ := (var tag name).isRecord.parts_eq hb.isRecord same
      cases hb with
      | var => simpa [parts, untag] using same
      | _ => simp [typeName] at names
  | binary known hl hr ihl ihr =>
      obtain ⟨names, same⟩ := (binary known hl hr).isRecord.parts_eq hb.isRecord same
      cases hb with
      | binary known' hl' hr' =>
          simp only [parts, field_cons_inj, Outline.text.injEq, and_true] at same
          obtain ⟨op, left, right⟩ := same
          rw [untag, untag, ihl hl' left, ihr hr' right, BinaryOp.text_inj known known' op]
      | _ => simp [typeName] at names
  | unary known h ih =>
      obtain ⟨names, same⟩ := (unary known h).isRecord.parts_eq hb.isRecord same
      cases hb with
      | unary known' h' =>
          simp only [parts, field_cons_inj, Outline.text.injEq, and_true] at same
          obtain ⟨op, operand⟩ := same
          rw [untag, untag, ih h' operand, UnaryOp.text_inj known known' op]
      | _ => simp [typeName] at names

theorem untagAll_of_outlineAll {nodes : List (Node ι)} {nodes' : List (Node κ)}
    (each : ∀ node ∈ nodes, ∀ {node' : Node κ}, node'.IsStatement → outline node = outline node' →
      node.untag = node'.untag)
    (statements' : ∀ node ∈ nodes', node.IsStatement) (same : outlineAll nodes = outlineAll nodes') :
    untagAll nodes = untagAll nodes' := by
  have items := Outline.list.inj same
  clear same
  induction nodes generalizing nodes' with
  | nil =>
      cases nodes' with
      | nil => rfl
      | cons => cases items
  | cons node nodes ih =>
      cases nodes' with
      | nil => cases items
      | cons node' nodes' =>
          obtain ⟨first, later⟩ := List.forall_mem_cons.mp each
          obtain ⟨statement', statements'⟩ := List.forall_mem_cons.mp statements'
          obtain ⟨front, rest⟩ := List.cons.inj items
          rw [untagAll, untagAll, first statement' front, ih later statements' rest]

/-- The outline of a statement gives the statement, but for its tags. -/
theorem IsStatement.outline_inj {a : Node ι} {b : Node κ} (h : a.IsStatement)
    (h' : b.IsStatement) (same : outline a = outline b) : a.untag = b.untag := by
  induction h generalizing b with
  | declare hv =>
      obtain ⟨names, same⟩ := (declare hv).isRecord.parts_eq h'.isRecord same
      cases h' with
      | declare hv' =>
          simp only [parts, field_cons_inj, Outline.text.injEq, and_true] at same
          rw [untag, untag, same.1, hv.outline_inj hv' same.2]
      | _ => simp [typeName] at names
  | assign hv =>
      obtain ⟨names, same⟩ := (assign hv).isRecord.parts_eq h'.isRecord same
      cases h' with
      | assign hv' =>
          simp only [parts, field_cons_inj, Outline.text.injEq, and_true] at same
          rw [untag, untag, same.1, hv.outline_inj hv' same.2]
      | _ => simp [typeName] at names
  | print hv =>
      obtain ⟨names, same⟩ := (print hv).isRecord.parts_eq h'.isRecord same
      cases h' with
      | print hv' =>
          simp only [parts, field_cons_inj, and_true] at same
          rw [untag, untag, hv.outline_inj hv' same]
      | _ => simp [typeName] at names
  | debugPrint hv =>
      obtain ⟨names, same⟩ := (debugPrint hv).isRecord.parts_eq h'.isRecord same
      cases h' with
      | debugPrint hv' =>
          simp only [parts, field_cons_inj, and_true] at same
          rw [untag, untag, hv.outline_inj hv' same]
      | _ => simp [typeName] at names
  | ifThen hc hb ih =>
      obtain ⟨names, same⟩ := (ifThen hc hb).isRecord.parts_eq h'.isRecord same
      cases h' with
      | ifThen hc' hb' =>
          simp only [parts, field_cons_inj, and_true] at same
          rw [untag, untag, hc.outline_inj hc' same.1, untagAll_of_outlineAll ih hb' same.2]
      | ifElse => simp [parts, outlineAll] at same
      | _ => simp [typeName] at names
  | ifElse hc hy hn ihy ihn =>
      obtain ⟨names, same⟩ := (ifElse hc hy hn).isRecord.parts_eq h'.isRecord same
      cases h' with
      | ifThen => simp [parts, outlineAll] at same
      | ifElse hc' hy' hn' =>
          simp only [parts, field_cons_inj, and_true] at same
          rw [untag, untag, hc.outline_inj hc' same.1, untagAll_of_outlineAll ihy hy' same.2.1,
            untagAll_of_outlineAll ihn hn' same.2.2]
      | _ => simp [typeName] at names
  | whileDo hc hb ih =>
      obtain ⟨names, same⟩ := (whileDo hc hb).isRecord.parts_eq h'.isRecord same
      cases h' with
      | whileDo hc' hb' =>
          simp only [parts, field_cons_inj, and_true] at same
          rw [untag, untag, hc.outline_inj hc' same.1, untagAll_of_outlineAll ih hb' same.2]
      | _ => simp [typeName] at names
  | breakOut tag =>
      obtain ⟨names, same⟩ := (breakOut tag).isRecord.parts_eq h'.isRecord same
      cases h' with
      | breakOut => rfl
      | _ => simp [typeName] at names
  | continueOn tag =>
      obtain ⟨names, same⟩ := (continueOn tag).isRecord.parts_eq h'.isRecord same
      cases h' with
      | continueOn => rfl
      | _ => simp [typeName] at names

/-- Programs whose outlines are drawn alike are the same, but for their tags. -/
theorem untagAll_of_render {nodes : List (Node ι)} {nodes' : List (Node κ)}
    (statements : ∀ node ∈ nodes, node.IsStatement)
    (statements' : ∀ node ∈ nodes', node.IsStatement) {indent : Nat}
    (same : (outlineAll nodes).render indent = (outlineAll nodes').render indent) :
    untagAll nodes = untagAll nodes' :=
  untagAll_of_outlineAll (fun node member _ => (statements node member).outline_inj) statements'
    ((tidy_outlineAll fun node member => (statements node member).tidy).render_inj
      (tidy_outlineAll fun node member => (statements' node member).tidy) same)

/-- An empty branch is drawn as an empty line. -/
example : (outlineAll [ifElse () (flag () true) [] []]).lines 1 =
    ["  -", "    type: 'If'", "    condition:", "      type: 'Bool'", "      value: True",
      "    then_block:", "", "    else_block:", ""] := by decide

end Node

end SlangScript
