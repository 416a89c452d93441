import SlangScript.Node.Basic

/-!
The trees that are programs. A tree built by hand may hold any node anywhere; a program has
expressions where expressions belong and statements where statements belong, and its operators are
those that there are.
-/

namespace SlangScript

def UnaryOp.known : List UnaryOp := [.not, .neg]

namespace Node

variable {ι : Type}

inductive IsExpression : Node ι → Prop
  | number (tag : ι) (value : Float) : IsExpression (.number tag value)
  | text (tag : ι) (value : String) : IsExpression (.text tag value)
  | flag (tag : ι) (value : Bool) : IsExpression (.flag tag value)
  | var (tag : ι) (name : String) : IsExpression (.var tag name)
  | binary {tag : ι} {left right : Node ι} {op : BinaryOp} (known : op ∈ BinaryOp.known)
      (hl : IsExpression left) (hr : IsExpression right) : IsExpression (.binary tag left op right)
  | unary {tag : ι} {op : UnaryOp} {operand : Node ι} (known : op ∈ UnaryOp.known)
      (h : IsExpression operand) : IsExpression (.unary tag op operand)

inductive IsStatement : Node ι → Prop
  | declare {tag : ι} {name : String} {value : Node ι} (h : IsExpression value) :
      IsStatement (.declare tag name value)
  | assign {tag : ι} {name : String} {value : Node ι} (h : IsExpression value) :
      IsStatement (.assign tag name value)
  | print {tag : ι} {value : Node ι} (h : IsExpression value) : IsStatement (.print tag value)
  | debugPrint {tag : ι} {value : Node ι} (h : IsExpression value) :
      IsStatement (.debugPrint tag value)
  | ifThen {tag : ι} {condition : Node ι} {body : List (Node ι)} (hc : IsExpression condition)
      (hb : ∀ s ∈ body, IsStatement s) : IsStatement (.ifThen tag condition body)
  | ifElse {tag : ι} {condition : Node ι} {yes no : List (Node ι)} (hc : IsExpression condition)
      (hy : ∀ s ∈ yes, IsStatement s) (hn : ∀ s ∈ no, IsStatement s) :
      IsStatement (.ifElse tag condition yes no)
  | whileDo {tag : ι} {condition : Node ι} {body : List (Node ι)} (hc : IsExpression condition)
      (hb : ∀ s ∈ body, IsStatement s) : IsStatement (.whileDo tag condition body)
  | breakOut (tag : ι) : IsStatement (.breakOut tag)
  | continueOn (tag : ι) : IsStatement (.continueOn tag)

end Node

end SlangScript
