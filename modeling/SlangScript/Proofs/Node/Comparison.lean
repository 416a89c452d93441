import SlangScript.Node.Comparison
import SlangScript.Proofs.Grammar.SourceOrder
import SlangScript.Proofs.Node.Frames
import SlangScript.Proofs.Number.Shapes

/-!
Comparison of programs. Two programs are equal if they are the same but for their tags, as long as
no number is a negative zero or none at all. To find that they are takes the frames of the whole
trees; to find that they are not takes no more than those of the lower one.
-/

namespace SlangScript.Node

open Number Stacked

/-- The numbers of the items have no minus. -/
def NoMinus (items : List Item) : Prop :=
  ∀ item ∈ items, ∀ x, item.lexeme = .number x → Signless x

namespace NoMinus

variable {item : Item} {items items' : List Item}

theorem tail (h : NoMinus (item :: items)) : NoMinus items := (List.forall_mem_cons.mp h).2

theorem append (h : NoMinus (items ++ items')) : NoMinus items ∧ NoMinus items' :=
  List.forall_mem_append.mp h

end NoMinus

variable {ι κ : Type}

/-- Comparing finds out whether the nodes are the same but for their tags. -/
def Compares (a : Node ι) (b : Node κ) : Prop :=
  Decides (compare a b) (frames .comparing a) (frames .comparing b) (a.untag = b.untag)

section

variable {a : Node ι} {b : Node κ} {fields : Stacked Bool} {left right : Nat} {p : Prop}

theorem compares_of_fields (compared : compare a b = call Walk.comparing.node fields)
    (around : frames .comparing a = Walk.comparing.node + left)
    (around' : frames .comparing b = Walk.comparing.node + right)
    (found : Decides fields left right p) (iff : p ↔ a.untag = b.untag) : Compares a b := by
  rw [Compares, compared, around, around']
  exact (found.call _).congr iff

theorem compares_of_difference (compared : compare a b = call Walk.comparing.node fields)
    (within : Walk.comparing.node + left ≤ frames .comparing a)
    (within' : Walk.comparing.node + right ≤ frames .comparing b)
    (found : Decides fields left right p) (not : ¬p) (differ : a.untag ≠ b.untag) :
    Compares a b := by
  rw [Compares, compared]
  exact (found.call _).differ not within within' differ

/-- Nodes of different types are found to differ at once. -/
theorem compares_of_types (compared : compare a b = call Walk.comparing.node (pure false))
    (differ : a.untag ≠ b.untag) : Compares a b :=
  compares_of_difference compared (node_le_frames .comparing a) (node_le_frames .comparing b)
    (.pure false) Bool.false_ne_true differ

end

theorem IsExpression.compares {a b : Node Int} (ha : a.IsExpression) (hb : b.IsExpression)
    (plain : NoMinus a.items) (plain' : NoMinus b.items) : Compares a b := by
  induction ha generalizing b with
  | number tag x =>
      cases hb with
      | number tag' y =>
          have signless := plain _ List.mem_cons_self x rfl
          have signless' := plain' _ List.mem_cons_self y rfl
          exact compares_of_fields rfl rfl rfl (.pure _)
            (by simp [untag, signless.beq_iff signless'])
      | _ => exact compares_of_types rfl (by simp [untag])
  | text tag value =>
      cases hb with
      | text => exact compares_of_fields rfl rfl rfl (.pure _) (by simp [untag])
      | _ => exact compares_of_types rfl (by simp [untag])
  | flag tag value =>
      cases hb with
      | flag => exact compares_of_fields rfl rfl rfl (.pure _) (by simp [untag])
      | _ => exact compares_of_types rfl (by simp [untag])
  | var tag name =>
      cases hb with
      | var => exact compares_of_fields rfl rfl rfl (.pure _) (by simp [untag])
      | _ => exact compares_of_types rfl (by simp [untag])
  | binary known hl hr ihl ihr =>
      cases hb with
      | binary known' hl' hr' =>
          obtain ⟨left, right⟩ := plain.append
          obtain ⟨left', right'⟩ := plain'.append
          have first := ihl hl' left left'
          have second := ihr hr' right.tail right'.tail
          exact compares_of_fields rfl rfl rfl (first.and (second.value _)) (by simp [untag])
      | _ => exact compares_of_types rfl (by simp [untag])
  | unary known h ih =>
      cases hb with
      | unary known' h' =>
          exact compares_of_fields rfl rfl rfl ((ih h' plain.tail plain'.tail).value _)
            (by simp [untag])
      | _ => exact compares_of_types rfl (by simp [untag])

/-! ## Lists -/

theorem length_untagAll (nodes : List (Node ι)) : (untagAll nodes).length = nodes.length := by
  induction nodes with
  | nil => rfl
  | cons node nodes ih => rw [untagAll, List.length_cons, ih, List.length_cons]

/-- The nodes can be compared to statements of other programs. -/
def EachCompares (nodes : List (Node Int)) : Prop :=
  ∀ a ∈ nodes, ∀ {b : Node Int}, b.IsStatement → NoMinus a.items → NoMinus b.items → Compares a b

theorem decides_compareEach {nodes nodes' : List (Node Int)} (each : EachCompares nodes)
    (statements' : ∀ node ∈ nodes', node.IsStatement) (plain : NoMinus (itemsAll nodes))
    (plain' : NoMinus (itemsAll nodes')) (length : nodes.length = nodes'.length) :
    Decides (compareEach nodes nodes') (framesEach .comparing nodes) (framesEach .comparing nodes')
      (untagAll nodes = untagAll nodes') := by
  induction nodes generalizing nodes' with
  | nil =>
      obtain rfl := List.length_eq_zero_iff.mp length.symm
      exact (Decides.pure true).congr (iff_of_true rfl rfl)
  | cons node nodes ih =>
      cases nodes' with
      | nil => cases length
      | cons node' nodes' =>
          obtain ⟨first, later⟩ := List.forall_mem_cons.mp each
          obtain ⟨statement', statements'⟩ := List.forall_mem_cons.mp statements'
          obtain ⟨front, back⟩ := plain.append
          obtain ⟨front', back'⟩ := plain'.append
          exact ((first statement' front front').and
            (ih later statements' back back' (Nat.succ.inj length))).congr (by simp [untagAll])

theorem EachCompares.decides {nodes nodes' : List (Node Int)} (each : EachCompares nodes)
    (statements' : ∀ node ∈ nodes', node.IsStatement) (plain : NoMinus (itemsAll nodes))
    (plain' : NoMinus (itemsAll nodes')) :
    Decides (compareAll nodes nodes') (framesAll .comparing nodes) (framesAll .comparing nodes')
      (untagAll nodes = untagAll nodes') := by
  rw [compareAll, compareLists]
  by_cases length : nodes.length = nodes'.length
  · rw [if_pos length]
    exact (decides_compareEach each statements' plain plain' length).call _
  · have differ : untagAll nodes ≠ untagAll nodes' := fun same => length (by
      rw [← length_untagAll nodes, same, length_untagAll])
    rw [if_neg length]
    exact ((Decides.pure false).call _).differ Bool.false_ne_true (Nat.le_add_right ..)
      (Nat.le_add_right ..) differ

/-! ## Statements -/

theorem IsStatement.compares {a b : Node Int} (h : a.IsStatement) (h' : b.IsStatement)
    (plain : NoMinus a.items) (plain' : NoMinus b.items) : Compares a b := by
  induction h generalizing b with
  | declare hv =>
      cases h' with
      | declare hv' =>
          have value := hv.compares hv' plain.tail.tail plain'.tail.tail
          exact compares_of_fields rfl rfl rfl (value.value _) (by simp [untag])
      | _ => exact compares_of_types rfl (by simp [untag])
  | assign hv =>
      cases h' with
      | assign hv' =>
          have value := hv.compares hv' plain.tail plain'.tail
          exact compares_of_fields rfl rfl rfl (value.value _) (by simp [untag])
      | _ => exact compares_of_types rfl (by simp [untag])
  | print hv =>
      cases h' with
      | print hv' =>
          have value := hv.compares hv' plain.tail plain'.tail
          exact compares_of_fields rfl rfl rfl value (by simp [untag])
      | _ => exact compares_of_types rfl (by simp [untag])
  | debugPrint hv =>
      cases h' with
      | debugPrint hv' =>
          have value := hv.compares hv' plain.tail plain'.tail
          exact compares_of_fields rfl rfl rfl value (by simp [untag])
      | _ => exact compares_of_types rfl (by simp [untag])
  | ifThen hc hb ih =>
      obtain ⟨condition, body⟩ := plain.tail.append
      cases h' with
      | ifThen hc' hb' =>
          obtain ⟨condition', body'⟩ := plain'.tail.append
          have fields := (hc.compares hc' condition condition').and
            (EachCompares.decides ih hb' body body')
          exact compares_of_fields rfl rfl rfl fields (by simp [untag])
      | ifElse hc' hy' hn' =>
          obtain ⟨condition', branches'⟩ := plain'.tail.append
          have fields := (hc.compares hc' condition condition').and
            ((EachCompares.decides ih hy' body branches'.append.1).and (.pure false))
          refine compares_of_difference rfl ?_ ?_ fields (by simp) (by simp [untag])
          all_goals
            simp only [frames, framesAll]
            omega
      | _ => exact compares_of_types rfl (by simp [untag])
  | ifElse hc hy hn ihy ihn =>
      obtain ⟨condition, branches⟩ := plain.tail.append
      obtain ⟨yes, no⟩ := branches.append
      cases h' with
      | ifElse hc' hy' hn' =>
          obtain ⟨condition', branches'⟩ := plain'.tail.append
          obtain ⟨yes', no'⟩ := branches'.append
          have fields := (hc.compares hc' condition condition').and
            ((EachCompares.decides ihy hy' yes yes').and (EachCompares.decides ihn hn' no no'))
          exact compares_of_fields rfl rfl rfl fields (by simp [untag])
      | ifThen hc' hb' =>
          obtain ⟨condition', body'⟩ := plain'.tail.append
          have fields := (hc.compares hc' condition condition').and
            ((EachCompares.decides ihy hb' yes body').and (.pure false))
          refine compares_of_difference rfl ?_ ?_ fields (by simp) (by simp [untag])
          all_goals
            simp only [frames, framesAll]
            omega
      | _ => exact compares_of_types rfl (by simp [untag])
  | whileDo hc hb ih =>
      cases h' with
      | whileDo hc' hb' =>
          obtain ⟨condition, body⟩ := plain.tail.append
          obtain ⟨condition', body'⟩ := plain'.tail.append
          have fields := (hc.compares hc' condition condition').and
            (EachCompares.decides ih hb' body body')
          exact compares_of_fields rfl rfl rfl fields (by simp [untag])
      | _ => exact compares_of_types rfl (by simp [untag])
  | breakOut tag =>
      cases h' with
      | breakOut => exact compares_of_fields rfl rfl rfl (.pure true) (by simp [untag])
      | _ => exact compares_of_types rfl (by simp [untag])
  | continueOn tag =>
      cases h' with
      | continueOn => exact compares_of_fields rfl rfl rfl (.pure true) (by simp [untag])
      | _ => exact compares_of_types rfl (by simp [untag])

/-- Comparing finds out whether two programs are the same but for their tags. -/
theorem decides_compareAll {nodes nodes' : List (Node Int)}
    (statements : ∀ node ∈ nodes, node.IsStatement)
    (statements' : ∀ node ∈ nodes', node.IsStatement) (plain : NoMinus (itemsAll nodes))
    (plain' : NoMinus (itemsAll nodes')) :
    Decides (compareAll nodes nodes') (framesAll .comparing nodes) (framesAll .comparing nodes')
      (untagAll nodes = untagAll nodes') :=
  EachCompares.decides (fun node member _ => (statements node member).compares) statements' plain
    plain'

end SlangScript.Node
