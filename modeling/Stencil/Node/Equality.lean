import Stencil.Node.Basic

/-!
# Equality of trees

Two trees are equal when they say the same: places and bound helpers do not count, and an else
clause without nodes counts as none.
-/

namespace Stencil

namespace Node

/-- Equal names and arguments. -/
def sameCall (a b : Invocation) : Bool :=
  a.name == b.name && Param.sameArgs a.args b.args && Param.sameHash a.hash b.hash

/-- Sections whose tags say the same. -/
def sameHead (a b : BlockHead) : Bool :=
  a.inverted == b.inverted && sameCall a.call b.call && a.blockParams == b.blockParams &&
    a.label == b.label && a.delimiters == b.delimiters

mutual

/-- Equal nodes. -/
def same : Node → Node → Bool
  | text _ a, text _ b => a == b
  | comment _ a d, comment _ b e => a == b && d == e
  | output _ s a d, output _ t b e => s == t && sameCall a b && d == e
  | block h xs is, block k ys js =>
    sameHead h k &&
      (match xs, ys with
        | some xs, some ys => sameAll xs ys
        | none, none => true
        | _, _ => false) &&
      (match is with
        | some is => sameAll is (js.getD [])
        | none => (js.getD []).isEmpty)
  | inlinePartial _ a xs d, inlinePartial _ b ys e => a == b && sameAll xs ys && d == e
  | inclusion _ a xs hs d, inclusion _ b ys ks e =>
    a == b && Param.sameArgs xs ys && Param.sameHash hs ks && d == e
  | _, _ => false

/-- Equal lists of nodes. -/
def sameAll : List Node → List Node → Bool
  | [], [] => true
  | x :: xs, y :: ys => same x y && sameAll xs ys
  | _, _ => false

end

end Node

namespace Template

/-- Templates with equal nodes. -/
def same (a b : Template) : Bool := Node.sameAll a.root b.root

end Template

end Stencil
