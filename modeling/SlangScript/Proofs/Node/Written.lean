import SlangScript.Node.Written
import SlangScript.Proofs.Node.Printer
import SlangScript.Proofs.Node.Shape
import SlangScript.Proofs.Token.Written

/-!
Written forms of programs can be told apart wherever they stand: of two of them, in front of whatever
text, the one and the text behind it are the other and the text behind it, but for the tags.
-/

namespace SlangScript

open Text

/-! ## Texts that can be told apart -/

/-- Whatever comes behind two texts, the wholes are the same only if what is behind is, and the two
texts then agree in something. -/
def Told (text text' : String) (agree : Prop) : Prop :=
  ∀ rest rest' : List Char, text.toList ++ rest = text'.toList ++ rest' → agree ∧ rest = rest'

namespace Told

variable {text text' more more' : String} {agree agree' : Prop}

theorem refl (text : String) : Told text text True :=
  fun _ _ whole => ⟨trivial, List.append_cancel_left whole⟩

theorem imp (h : Told text text' agree) (gives : agree → agree') : Told text text' agree' :=
  fun rest rest' whole => (h rest rest' whole).imp_left gives

theorem symm (h : Told text text' agree) : Told text' text agree :=
  fun rest rest' whole => (h rest' rest whole.symm).imp_right Eq.symm

theorem append (h : Told text text' agree) (h' : Told more more' agree') :
    Told (text ++ more) (text' ++ more') (agree ∧ agree') := by
  intro rest rest' whole
  rw [String.toList_append, String.toList_append, List.append_assoc, List.append_assoc] at whole
  obtain ⟨front, behind⟩ := h _ _ whole
  obtain ⟨back, behind⟩ := h' _ _ behind
  exact ⟨⟨front, back⟩, behind⟩

theorem behind (front : String) (h : Told text text' agree) :
    Told (front ++ text) (front ++ text') agree :=
  ((refl front).append h).imp And.right

theorem heads {c d : Char} (h : text.toList.head? = some c) (h' : text'.toList.head? = some d)
    (other : c ≠ d) : Told text text' agree := by
  intro rest rest' whole
  have first := congrArg List.head? whole
  rw [List.head?_append, List.head?_append, h, h', Option.some_or, Option.some_or] at first
  exact absurd (Option.some.inj first) other

theorem agree_of_eq (h : Told text text' agree) (same : text = text') : agree :=
  (h [] [] (by rw [same])).1

/-! ### Values -/

theorem quoted (text text' : String) : Told (quoted text) (quoted text') (text = text') :=
  fun _ _ => quoted_append_inj

theorem flag (value value' : Bool) :
    Told (writtenFlag value) (writtenFlag value') (value = value') := by
  cases value <;> cases value'
  case false.true | true.false => exact heads rfl rfl (by decide)
  all_goals exact (refl _).imp fun _ => rfl

/-- A number can be told by the parenthesis behind it. -/
theorem number (x y : Float) : Told (writtenNumber x ++ ")") (writtenNumber y ++ ")") (x = y) := by
  intro rest rest' whole
  simp only [String.toList_append, List.append_assoc] at whole
  obtain ⟨same, behind⟩ := append_cons_inj (foreign_rparen.not_mem_writtenNumber x)
    (foreign_rparen.not_mem_writtenNumber y) whole
  exact ⟨writtenNumber_inj (String.toList_inj.mp same), behind⟩

end Told

/-! ## Fields and lists -/

/-- Items that are not the first, with what closes them. -/
def further (close : String) : List String → String
  | [] => close
  | item :: items => ", " ++ item ++ further close items

theorem intercalate_close (item : String) (items : List String) (close : String) :
    ", ".intercalate (item :: items) ++ close = item ++ further close items := by
  induction items generalizing item with
  | nil => rw [String.intercalate_singleton, further]
  | cons next items ih =>
      rw [String.intercalate_cons_cons, String.append_assoc, ih, further, String.append_assoc,
        String.append_assoc]

theorem writtenList_cons (item : String) (items : List String) :
    writtenList (item :: items) = "[" ++ (item ++ further "]" items) := by
  rw [writtenList, String.append_assoc, intercalate_close]

/-- Fields that are not the first. -/
def furtherFields (fields : List (String × String)) : String :=
  further ")" (fields.map fun (name, value) => name ++ "=" ++ value)

theorem writtenFields_cons (type name value : String) (fields : List (String × String)) :
    Node.writtenFields type ((name, value) :: fields) =
      type ++ "(" ++ (name ++ "=" ++ value ++ furtherFields fields) := by
  rw [Node.writtenFields, String.append_assoc]
  exact congrArg (type ++ "(" ++ ·) (intercalate_close _ _ ")")

namespace Told

variable {value value' close name type : String} {items items' : List String}
  {later later' : List (String × String)} {agree agree' : Prop}

theorem item (h : Told value value' agree)
    (h' : Told (further close items) (further close items') agree') :
    Told (further close (value :: items)) (further close (value' :: items')) (agree ∧ agree') :=
  (h.behind ", ").append h'

/-- No list is written as what stands where there is none. -/
theorem none_list (items : List String) : Told "None" (writtenList items) False := by
  refine heads rfl ?_ (show 'N' ≠ '[' by decide)
  rw [writtenList, String.append_assoc, String.toList_append]
  rfl

theorem closed_item (close item : String) (items : List String) {c : Char}
    (h : close.toList.head? = some c) (other : c ≠ ',') :
    Told (further close []) (further close (item :: items)) agree := by
  refine heads h ?_ other
  rw [further, String.append_assoc, String.toList_append]
  rfl

theorem field (h : Told value value' agree)
    (h' : Told (furtherFields later) (furtherFields later') agree') :
    Told (furtherFields ((name, value) :: later)) (furtherFields ((name, value') :: later'))
      (agree ∧ agree') :=
  item (h.behind (name ++ "=")) h'

theorem fields (h : Told value value' agree)
    (h' : Told (furtherFields later) (furtherFields later') agree') :
    Told (Node.writtenFields type ((name, value) :: later))
      (Node.writtenFields type ((name, value') :: later')) (agree ∧ agree') := by
  rw [writtenFields_cons, writtenFields_cons]
  exact ((h.behind (name ++ "=")).append h').behind (type ++ "(")

theorem one_field (h : Told value value' agree) : Told (Node.writtenFields type [(name, value)])
    (Node.writtenFields type [(name, value')]) agree :=
  (fields h (refl _)).imp And.left

theorem number_field (x y : Float) : Told (Node.writtenFields type [(name, writtenNumber x)])
    (Node.writtenFields type [(name, writtenNumber y)]) (x = y) := by
  have front (z : Float) : Node.writtenFields type [(name, writtenNumber z)] =
      type ++ "(" ++ name ++ "=" ++ (writtenNumber z ++ ")") := by
    simp only [writtenFields_cons, furtherFields, List.map_nil, further, String.append_assoc]
  rw [front, front]
  exact (number x y).behind _

end Told

/-! ## Nodes -/

theorem BinaryOp.text_inj {op op' : BinaryOp} (h : op ∈ known) (h' : op' ∈ known)
    (same : op.text = op'.text) : op = op' := by
  have all : ∀ op ∈ known, ∀ op' ∈ known, op.text = op'.text → op = op' := by decide
  exact all op h op' h' same

theorem UnaryOp.text_inj {op op' : UnaryOp} (h : op ∈ known) (h' : op' ∈ known)
    (same : op.text = op'.text) : op = op' := by
  have all : ∀ op ∈ known, ∀ op' ∈ known, op.text = op'.text → op = op' := by decide
  exact all op h op' h' same

namespace Node

variable {ι κ : Type}

theorem typeName_front (node : Node ι) :
    '(' ∉ node.typeName.toList ∧ ∃ c, node.typeName.toList.head? = some c ∧ c ≠ ']' := by
  cases node <;> simp [typeName]

/-- A node that is one is written as its type and fields in parentheses. -/
theorem written_eq {node : Node ι} (h : node.typeName ≠ "NoneType") :
    ∃ behind, written node = node.typeName ++ ("(" ++ behind) := by
  cases node
  case missing => exact absurd rfl h
  all_goals
    rw [written, writtenFields, String.append_assoc, String.append_assoc]
    exact ⟨_, rfl⟩

/-- Nodes of different types can be told apart. -/
theorem told_of_typeName {a : Node ι} {b : Node κ} {agree : Prop}
    (other : a.typeName ≠ b.typeName ∧ a.typeName ≠ "NoneType" ∧ b.typeName ≠ "NoneType") :
    Told (written a) (written b) agree := by
  intro rest rest' whole
  obtain ⟨other, present, present'⟩ := other
  obtain ⟨fields, same⟩ := written_eq present
  obtain ⟨fields', same'⟩ := written_eq present'
  simp only [same, same', String.toList_append, List.append_assoc] at whole
  obtain ⟨names, -⟩ := append_cons_inj (typeName_front a).1 (typeName_front b).1 whole
  exact absurd (String.toList_inj.mp names) other

/-- Expressions can be told apart, but for their tags. -/
theorem IsExpression.told {a : Node ι} {b : Node κ} (ha : a.IsExpression) (hb : b.IsExpression) :
    Told (written a) (written b) (a.untag = b.untag) := by
  induction ha generalizing b with
  | number tag value =>
      cases hb with
      | number tag' value' =>
          rw [written, written]
          exact (Told.number_field value value').imp (congrArg _)
      | _ => exact told_of_typeName (by simp [typeName])
  | text tag value =>
      cases hb with
      | text tag' value' =>
          exact (Told.one_field (.quoted value value')).imp (congrArg _)
      | _ => exact told_of_typeName (by simp [typeName])
  | flag tag value =>
      cases hb with
      | flag tag' value' =>
          exact (Told.one_field (.flag value value')).imp (congrArg _)
      | _ => exact told_of_typeName (by simp [typeName])
  | var tag name =>
      cases hb with
      | var tag' name' =>
          exact (Told.one_field (.quoted name name')).imp (congrArg _)
      | _ => exact told_of_typeName (by simp [typeName])
  | binary known hl hr ihl ihr =>
      cases hb with
      | binary known' hl' hr' =>
          rw [written, written]
          refine (Told.fields (ihl hl')
            (.field (.quoted _ _) (.field (ihr hr') (.refl _)))).imp ?_
          rintro ⟨left, op, right, -⟩
          rw [untag, untag, left, right, BinaryOp.text_inj known known' op]
      | _ => exact told_of_typeName (by simp [typeName])
  | unary known h ih =>
      cases hb with
      | unary known' h' =>
          rw [written, written]
          refine (Told.fields (.quoted _ _) (.field (ih h') (.refl _))).imp ?_
          rintro ⟨op, operand, -⟩
          rw [untag, untag, operand, UnaryOp.text_inj known known' op]
      | _ => exact told_of_typeName (by simp [typeName])

theorem IsStatement.present {node : Node ι} (h : node.IsStatement) : node.typeName ≠ "NoneType" := by
  cases h <;> simp [typeName]

/-- A list that starts with a statement is not empty. -/
theorem told_nil {node : Node ι} {agree : Prop} (h : node.IsStatement) (items : List String) :
    Told (writtenList []) (writtenList (written node :: items)) agree := by
  obtain ⟨fields, same⟩ := written_eq h.present
  obtain ⟨-, c, first, other⟩ := typeName_front node
  rw [writtenList_cons, same, String.append_assoc]
  have apart (more : String) : Told "]" (node.typeName ++ more) agree := by
    refine .heads rfl ?_ other.symm
    rw [String.toList_append, List.head?_append, first, Option.some_or]
  exact (apart _).behind "["

section

variable {nodes : List (Node ι)} {nodes' : List (Node κ)}
  (each : ∀ node ∈ nodes, ∀ {node' : Node κ}, node'.IsStatement →
    Told (written node) (written node') (node.untag = node'.untag))
  (statements' : ∀ node ∈ nodes', node.IsStatement)

include each statements'

theorem told_further : Told (further "]" (writtenEach nodes)) (further "]" (writtenEach nodes'))
    (untagAll nodes = untagAll nodes') := by
  induction nodes generalizing nodes' with
  | nil =>
      cases nodes' with
      | nil => exact (Told.refl _).imp fun _ => rfl
      | cons node' nodes' => exact .closed_item "]" _ _ rfl (by decide)
  | cons node nodes ih =>
      obtain ⟨first, later⟩ := List.forall_mem_cons.mp each
      cases nodes' with
      | nil => exact (Told.closed_item "]" _ _ rfl (by decide)).symm
      | cons node' nodes' =>
          obtain ⟨statement', statements'⟩ := List.forall_mem_cons.mp statements'
          refine (Told.item (first statement') (ih later statements')).imp ?_
          rintro ⟨node, nodes⟩
          rw [untagAll, untagAll, node, nodes]

theorem told_writtenAll (statements : ∀ node ∈ nodes, node.IsStatement) :
    Told (writtenAll nodes) (writtenAll nodes') (untagAll nodes = untagAll nodes') := by
  cases nodes with
  | nil =>
      cases nodes' with
      | nil => exact (Told.refl _).imp fun _ => rfl
      | cons node' nodes' => exact told_nil (statements' node' List.mem_cons_self) _
  | cons node nodes =>
      cases nodes' with
      | nil => exact (told_nil (statements node List.mem_cons_self) _).symm
      | cons node' nodes' =>
          obtain ⟨first, later⟩ := List.forall_mem_cons.mp each
          obtain ⟨statement', statements'⟩ := List.forall_mem_cons.mp statements'
          rw [writtenAll, writtenAll, writtenEach, writtenEach, writtenList_cons, writtenList_cons]
          refine ((first statement').append (told_further later statements')).behind "[" |>.imp ?_
          rintro ⟨node, nodes⟩
          rw [untagAll, untagAll, node, nodes]

end

/-- Statements can be told apart, but for their tags. -/
theorem IsStatement.told {a : Node ι} {b : Node κ} (h : a.IsStatement) (h' : b.IsStatement) :
    Told (written a) (written b) (a.untag = b.untag) := by
  induction h generalizing b with
  | declare hv =>
      cases h' with
      | declare hv' =>
          rw [written, written]
          refine (Told.fields (.quoted _ _) (.field (hv.told hv') (.refl _))).imp ?_
          rintro ⟨name, value, -⟩
          rw [untag, untag, name, value]
      | _ => exact told_of_typeName (by simp [typeName])
  | assign hv =>
      cases h' with
      | assign hv' =>
          rw [written, written]
          refine (Told.fields (.quoted _ _) (.field (hv.told hv') (.refl _))).imp ?_
          rintro ⟨name, value, -⟩
          rw [untag, untag, name, value]
      | _ => exact told_of_typeName (by simp [typeName])
  | print hv =>
      cases h' with
      | print hv' => exact (Told.one_field (hv.told hv')).imp (congrArg _)
      | _ => exact told_of_typeName (by simp [typeName])
  | debugPrint hv =>
      cases h' with
      | debugPrint hv' => exact (Told.one_field (hv.told hv')).imp (congrArg _)
      | _ => exact told_of_typeName (by simp [typeName])
  | ifThen hc hb ih =>
      cases h' with
      | ifThen hc' hb' =>
          rw [written, written]
          refine (Told.fields (hc.told hc')
            (.field (told_writtenAll ih hb' hb) (.field (.refl _) (.refl _)))).imp ?_
          rintro ⟨condition, body, -⟩
          rw [untag, untag, condition, body]
      | ifElse hc' hy' hn' =>
          rw [written, written]
          refine (Told.fields (hc.told hc') (.field (told_writtenAll ih hy' hb)
            (.field (.none_list _) (.refl _)))).imp ?_
          rintro ⟨-, -, apart, -⟩
          exact apart.elim
      | _ => exact told_of_typeName (by simp [typeName])
  | ifElse hc hy hn ihy ihn =>
      cases h' with
      | ifThen hc' hb' =>
          rw [written, written]
          refine (Told.fields (hc.told hc') (.field (told_writtenAll ihy hb' hy)
            (.field (Told.none_list _).symm (.refl _)))).imp ?_
          rintro ⟨-, -, apart, -⟩
          exact apart.elim
      | ifElse hc' hy' hn' =>
          rw [written, written]
          refine (Told.fields (hc.told hc') (.field (told_writtenAll ihy hy' hy)
            (.field (told_writtenAll ihn hn' hn) (.refl _)))).imp ?_
          rintro ⟨condition, yes, no, -⟩
          rw [untag, untag, condition, yes, no]
      | _ => exact told_of_typeName (by simp [typeName])
  | whileDo hc hb ih =>
      cases h' with
      | whileDo hc' hb' =>
          rw [written, written]
          refine (Told.fields (hc.told hc') (.field (told_writtenAll ih hb' hb) (.refl _))).imp ?_
          rintro ⟨condition, body, -⟩
          rw [untag, untag, condition, body]
      | _ => exact told_of_typeName (by simp [typeName])
  | breakOut tag =>
      cases h' with
      | breakOut tag' => exact (Told.refl _).imp fun _ => rfl
      | _ => exact told_of_typeName (by simp [typeName])
  | continueOn tag =>
      cases h' with
      | continueOn tag' => exact (Told.refl _).imp fun _ => rfl
      | _ => exact told_of_typeName (by simp [typeName])

/-- Programs that are written alike are the same, but for their tags. -/
theorem untagAll_of_writtenAll {nodes : List (Node ι)} {nodes' : List (Node κ)}
    (statements : ∀ node ∈ nodes, node.IsStatement)
    (statements' : ∀ node ∈ nodes', node.IsStatement) (same : writtenAll nodes = writtenAll nodes') :
    untagAll nodes = untagAll nodes' :=
  (told_writtenAll (fun node member _ => (statements node member).told) statements'
    statements).agree_of_eq same

end Node

end SlangScript
