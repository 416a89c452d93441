import SlangScript.Node.Written
import SlangScript.Proofs.Node.Printer
import SlangScript.Proofs.Stacked

/-!
The frames that trees take. A walk that always goes through the whole tree takes as many as lie one
inside the other on the deepest way into it; so do the dumps of a program, and drawing an outline
takes no more than making it.
-/

namespace SlangScript

open Stacked

variable {ι : Type}

namespace Node

mutual

/-- The frames that a walk takes for a node and what is in it. -/
def frames (walk : Walk) : Node ι → Nat
  | .binary _ left _ right => walk.node + max (frames walk left) (frames walk right)
  | .unary _ _ operand => walk.node + frames walk operand
  | .declare _ _ value | .assign _ _ value | .print _ value | .debugPrint _ value =>
    walk.node + frames walk value
  | .ifThen _ condition body | .whileDo _ condition body =>
    walk.node + max (frames walk condition) (walk.list + framesEach walk body)
  | .ifElse _ condition yes no =>
    walk.node + max (frames walk condition)
      (max (walk.list + framesEach walk yes) (walk.list + framesEach walk no))
  | _ => walk.node

def framesEach (walk : Walk) : List (Node ι) → Nat
  | [] => 0
  | node :: rest => max (frames walk node) (framesEach walk rest)

end

def framesAll (walk : Walk) (nodes : List (Node ι)) : Nat := walk.list + framesEach walk nodes

theorem node_le_frames (walk : Walk) (node : Node ι) : walk.node ≤ frames walk node := by
  cases node <;> simp only [frames] <;> omega

mutual

theorem frames_untag (walk : Walk) : (node : Node ι) → frames walk node.untag = frames walk node
  | .binary _ left _ right => by
      simp only [untag, frames, frames_untag walk left, frames_untag walk right]
  | .unary _ _ operand => by simp only [untag, frames, frames_untag walk operand]
  | .declare _ _ value | .assign _ _ value | .print _ value | .debugPrint _ value => by
      simp only [untag, frames, frames_untag walk value]
  | .ifThen _ condition body | .whileDo _ condition body => by
      simp only [untag, frames, frames_untag walk condition, framesEach_untag walk body]
  | .ifElse _ condition yes no => by
      simp only [untag, frames, frames_untag walk condition, framesEach_untag walk yes,
        framesEach_untag walk no]
  | .number .. | .text .. | .flag .. | .var .. | .breakOut _ | .continueOn _ | .bare _
  | .missing => rfl

theorem framesEach_untag (walk : Walk) :
    (nodes : List (Node ι)) → framesEach walk (untagAll nodes) = framesEach walk nodes
  | [] => rfl
  | node :: nodes => by
      simp only [untagAll, framesEach, frames_untag walk node, framesEach_untag walk nodes]

end

theorem framesAll_untag (walk : Walk) (nodes : List (Node ι)) :
    framesAll walk (untagAll nodes) = framesAll walk nodes := by
  rw [framesAll, framesAll, framesEach_untag]

/-! ## Writing -/

mutual

theorem takes_write : (node : Node ι) → Takes (write node) (frames .writing node) (written node)
  | .binary _ left _ right =>
      ((takes_write left).bind ((takes_write right).last)).call _
  | .unary _ _ operand => ((takes_write operand).last).call _
  | .declare _ _ value | .assign _ _ value | .print _ value | .debugPrint _ value =>
      ((takes_write value).last).call _
  | .ifThen _ condition body | .whileDo _ condition body =>
      ((takes_write condition).bind ((((takes_writeEach body).map writtenList).call _).last)).call _
  | .ifElse _ condition yes no =>
      ((takes_write condition).bind ((((takes_writeEach yes).map writtenList).call _).bind
        ((((takes_writeEach no).map writtenList).call _).last))).call _
  | .number .. | .text .. | .flag .. | .var .. | .breakOut _ | .continueOn _ | .bare _
  | .missing => (Takes.pure _).call _

theorem takes_writeEach : (nodes : List (Node ι)) →
    Takes (writeEach nodes) (framesEach .writing nodes) (writtenEach nodes)
  | [] => .pure []
  | node :: nodes => (takes_write node).bind ((takes_writeEach nodes).last)

end

theorem takes_writeAll (nodes : List (Node ι)) :
    Takes (writeAll nodes) (framesAll .writing nodes) (writtenAll nodes) :=
  ((takes_writeEach nodes).map writtenList).call _

/-! ## Describing -/

mutual

theorem takes_describe :
    (node : Node ι) → Takes (describe node) (frames .describing node) (outline node)
  | .binary _ left _ right =>
      ((takes_describe left).bind ((takes_describe right).last)).call _
  | .unary _ _ operand => ((takes_describe operand).last).call _
  | .declare _ _ value | .assign _ _ value | .print _ value | .debugPrint _ value =>
      ((takes_describe value).last).call _
  | .ifThen _ condition body | .whileDo _ condition body =>
      ((takes_describe condition).bind
        ((((takes_describeEach body).map Outline.list).call _).last)).call _
  | .ifElse _ condition yes no =>
      ((takes_describe condition).bind ((((takes_describeEach yes).map Outline.list).call _).bind
        ((((takes_describeEach no).map Outline.list).call _).last))).call _
  | .number .. | .text .. | .flag .. | .var .. | .breakOut _ | .continueOn _ | .bare _
  | .missing => (Takes.pure _).call _

theorem takes_describeEach : (nodes : List (Node ι)) →
    Takes (describeEach nodes) (framesEach .describing nodes) (outlineEach nodes)
  | [] => .pure []
  | node :: nodes => (takes_describe node).bind ((takes_describeEach nodes).last)

end

theorem takes_describeAll (nodes : List (Node ι)) :
    Takes (describeAll nodes) (framesAll .describing nodes) (outlineAll nodes) :=
  ((takes_describeEach nodes).map Outline.list).call _

end Node

/-! ## Drawing -/

namespace Outline

mutual

/-- The frames that drawing an outline takes. -/
def frames : Outline → Nat
  | .list items => 1 + framesEach items
  | .record fields => 1 + framesFields fields
  | _ => 1

def framesEach : List Outline → Nat
  | [] => 0
  | item :: rest => max (frames item) (framesEach rest)

/-- A value behind a name needs no call. -/
def framesFields : Fields → Nat
  | .nil => 0
  | .cons _ value rest =>
    max (if value.afterName?.isSome then 0 else frames value) (framesFields rest)

end

mutual

theorem takes_drawLines (indent : Nat) :
    (outline : Outline) → Takes (drawLines indent outline) outline.frames (outline.lines indent)
  | .list items => ((takes_drawItems indent items).map orEmptyLine).call _
  | .record fields => ((takes_drawFields indent fields).map orEmptyLine).call _
  | .none | .flag _ | .integer _ | .number _ | .text _ => (Takes.pure _).call _

theorem takes_drawItems (indent : Nat) : (items : List Outline) →
    Takes (drawItems indent items) (framesEach items) (itemLines indent items)
  | [] => .pure []
  | item :: rest => (takes_drawLines (indent + 1) item).bind (takes_drawItems indent rest).last

theorem takes_drawFields (indent : Nat) : (fields : Fields) →
    Takes (drawFields indent fields) (framesFields fields) (fieldLines indent fields)
  | .nil => .pure []
  | .cons name value rest => by
      rw [drawFields, framesFields, fieldLines]
      cases value.afterName? with
      | none => exact (takes_drawLines (indent + 1) value).bind (takes_drawFields indent rest).last
      | some shown =>
          rw [Option.isSome_some, if_pos rfl, Nat.zero_max]
          exact (takes_drawFields indent rest).last

end

theorem takes_draw (indent : Nat) (outline : Outline) :
    Takes (outline.draw indent) outline.frames (outline.render indent) :=
  (takes_drawLines indent outline).map _

/-- The values stand behind their names, or take at most so many frames. -/
inductive Low (most : Nat) : List (String × Outline) → Prop
  | nil : Low most []
  | plain {name value fields} : value.afterName?.isSome = true → Low most fields →
      Low most ((name, value) :: fields)
  | deep {name value fields} : value.frames ≤ most → Low most fields →
      Low most ((name, value) :: fields)

theorem framesFields_cons_le {name : String} {value : Outline} {rest : Fields} {most : Nat} :
    framesFields (.cons name value rest) ≤ most ↔
      (value.afterName?.isSome = true ∨ value.frames ≤ most) ∧ framesFields rest ≤ most := by
  rw [framesFields, Nat.max_le]
  split <;> simp [*]

theorem framesFields_put_le {name : String} {value : Outline} {most : Nat}
    (low : value.afterName?.isSome = true ∨ value.frames ≤ most) :
    (fields : Fields) → framesFields fields ≤ most → framesFields (fields.put name value) ≤ most
  | .nil, h => framesFields_cons_le.mpr ⟨low, h⟩
  | .cons other old rest, h => by
      obtain ⟨first, later⟩ := framesFields_cons_le.mp h
      rw [Fields.put]
      split
      · exact framesFields_cons_le.mpr ⟨low, later⟩
      · exact framesFields_cons_le.mpr ⟨first, framesFields_put_le low rest later⟩

theorem Low.framesFields_le {most : Nat} {fields : List (String × Outline)} (low : Low most fields) :
    framesFields (.ofList fields) ≤ most := by
  have fold : ∀ start, framesFields start ≤ most →
      framesFields (fields.foldl (fun fields field => fields.put field.1 field.2) start) ≤ most := by
    induction low with
    | nil => exact fun _ h => h
    | plain shown _ ih => exact fun start h => ih _ (framesFields_put_le (.inl shown) start h)
    | deep le _ ih => exact fun start h => ih _ (framesFields_put_le (.inr le) start h)
  exact fold .nil (Nat.zero_le most)

end Outline

namespace Node

theorem frames_record_le {type : String} {fields : List (String × Outline)} {most : Nat}
    (low : Outline.Low most fields) : (record type fields).frames ≤ 1 + most :=
  Nat.add_le_add_left (Outline.Low.plain rfl low).framesFields_le 1

mutual

theorem frames_outline_le : (node : Node ι) → (outline node).frames ≤ frames .describing node
  | .binary _ left _ right => by
      have hl := frames_outline_le left
      have hr := frames_outline_le right
      exact frames_record_le (.plain rfl (.deep (by omega) (.deep (by omega) .nil)))
  | .unary _ _ operand =>
      frames_record_le (.plain rfl (.deep (frames_outline_le operand) .nil))
  | .declare _ _ value | .assign _ _ value =>
      frames_record_le (.plain rfl (.deep (frames_outline_le value) .nil))
  | .print _ value | .debugPrint _ value => frames_record_le (.deep (frames_outline_le value) .nil)
  | .ifThen _ condition body => by
      have hc := frames_outline_le condition
      have hb := frames_list_le body
      exact frames_record_le (.deep (by omega) (.deep (by omega) (.plain rfl .nil)))
  | .ifElse _ condition yes no => by
      have hc := frames_outline_le condition
      have hy := frames_list_le yes
      have hn := frames_list_le no
      exact frames_record_le (.deep (by omega) (.deep (by omega) (.deep (by omega) .nil)))
  | .whileDo _ condition body => by
      have hc := frames_outline_le condition
      have hb := frames_list_le body
      exact frames_record_le (.deep (by omega) (.deep (by omega) .nil))
  | .number .. | .text .. | .flag .. | .var .. | .bare _ =>
      @frames_record_le _ _ 0 (.plain rfl .nil)
  | .breakOut _ | .continueOn _ => @frames_record_le _ _ 0 .nil
  | .missing => Nat.le_refl 1

theorem frames_list_le : (nodes : List (Node ι)) →
    (Outline.list (outlineEach nodes)).frames ≤ Walk.describing.list + framesEach .describing nodes
  | [] => Nat.le_succ 1
  | node :: nodes => by
      have first := frames_outline_le node
      have later := frames_list_le nodes
      have one : 1 ≤ Walk.describing.list := by decide
      simp only [outlineEach, Outline.frames, Outline.framesEach, framesEach] at later ⊢
      omega

end

/-- Drawing an outline takes no more frames than making it. -/
theorem takes_drawAll (indent : Nat) (nodes : List (Node ι)) :
    Takes (drawAll indent nodes) (framesAll .describing nodes)
      ((outlineAll nodes).render indent) := by
  have both := (takes_describeAll nodes).bind ((outlineAll nodes).takes_draw indent)
  have less : (outlineAll nodes).frames ≤ framesAll .describing nodes := frames_list_le nodes
  rwa [Nat.max_eq_left less] at both

end Node

end SlangScript
