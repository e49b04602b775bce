import Mathlib.Data.List.Chain
import Stencil.Expression.Parse
import Stencil.Node.Equality
import Stencil.Node.Source
import Stencil.Proofs.Node.Within

/-!
# Normal trees

Not every tree survives being written out and read again: a text may look like a tag, a name may
hold a space, white space beside a tag may go with the tag. In a normal tree nothing of this kind
happens.
Its names are plain, its arguments are those that reading gives for their text, its texts are apart
from each other and from white space, and its tags have the standard delimiters.

Reading gives every section a body. A missing body is written like an empty one.
-/

namespace Stencil

/-- The characters of plain names. -/
def isNameChar (c : Char) : Bool :=
  c.isAlphanum || c == '_' || c == '.' || c == '/' || c == '@' || c == '-'

/-- The characters that plain names begin with. -/
def isNameStart (c : Char) : Bool := c.isAlphanum || c == '_' || c == '.' || c == '@'

/-- A name that needs no quotes or brackets. -/
def isPlainName (s : String) : Bool := s.toList.head?.any isNameStart && s.toList.all isNameChar

/-- The text between delimiters does not close the tag. -/
def Unclosed (s : String) : Prop := ¬ "\x7d\x7d".toList <:+: s.toList

/-- An argument that reading its text gives back. -/
inductive Param.Normal : Param → Prop
  | bare {raw : String} {value : Literal} (hread : Param.ofText raw = .ok (.literal raw value))
      (hbare : ∀ s, value ≠ .text s) : Normal (.literal raw value)
  /-- A text in quotes, which the scanner takes for one item. -/
  | quoted {raw s : String} (hread : Param.ofText raw = .ok (.literal raw (.text s)))
      (hscan : Item.scan raw.toList = .ok [.quoted raw]) (hunclosed : Unclosed raw) :
      Normal (.literal raw (.text s))
  | reference {raw : String} (hread : Param.ofText raw = .ok (.reference raw))
      (hname : isPlainName raw = true) : Normal (.reference raw)
  | call {place : Option Location} {name : String} {args : List Param} {hash : HashParams}
      {helper : Option Helper} (hname : isPlainName name = true) (hargs : ∀ p ∈ args, Normal p)
      (hkeys : ∀ entry ∈ hash, isPlainName entry.1 = true)
      (hhash : ∀ entry ∈ hash, Normal entry.2) : Normal (.call place name args hash helper)

/-- Arguments that reading their text gives back, under plain keys. -/
structure Param.AllNormal (args : List Param) (hash : HashParams) : Prop where
  args : ∀ p ∈ args, p.Normal
  keys : ∀ entry ∈ hash, isPlainName entry.1 = true
  hash : ∀ entry ∈ hash, entry.2.Normal

namespace Node

/-- A text that holds no opening delimiter and that no tag beside it takes anything from. -/
structure NormalText (content : String) : Prop where
  unopened : '\x7b' ∉ content.toList
  nonempty : content.toList ≠ []
  first : ∀ c ∈ content.toList.head?, Text.isBlank c = false
  last : ∀ c ∈ content.toList.getLast?, Text.isBlank c = false

/-- A comment without braces that is none of the kind with dashes. -/
structure NormalComment (content : String) : Prop where
  unopened : '\x7b' ∉ content.toList
  unclosed : '\x7d' ∉ content.toList
  untrimmed : '~' ∉ content.toList
  undashed : ¬ "--".toList <+: content.toList

/-- The name of an inline partial, which is written in quotes as it is. -/
structure NormalInlineName (name : String) : Prop where
  unquoted : '"' ∉ name.toList
  unescaped : '\\' ∉ name.toList
  unclosed : Unclosed name

/-- Runs of text. -/
def isText : Node → Bool
  | text .. => true
  | _ => false

/-- No two texts stand beside each other. -/
def Apart (nodes : List Node) : Prop :=
  nodes.IsChain fun a b => ¬ (a.isText = true ∧ b.isText = true)

instance (nodes : List Node) : Decidable (Apart nodes) :=
  inferInstanceAs (Decidable (nodes.IsChain _))

/-- A node that reading what is written for it gives back. -/
inductive Normal : Node → Prop
  | text {place : Option Location} {content : String} (h : NormalText content) :
      Normal (.text place content)
  | comment {place : Option Location} {content : String} (h : NormalComment content) :
      Normal (.comment place content .standard)
  | output {place : Option Location} {style : OutputStyle} {call : Invocation}
      (hname : isPlainName call.name = true) (hargs : Param.AllNormal call.args call.hash)
      (helse : style = .plain → call.name ≠ "else") : Normal (.output place style call .standard)
  | block {head : BlockHead} {body inverse : Option (List Node)}
      (hname : isPlainName head.call.name = true)
      (hargs : Param.AllNormal head.call.args head.call.hash)
      (hparams : ∀ name ∈ head.blockParams, isPlainName name = true)
      (hlabel : inverse = none → head.label = .word) (hmarks : head.delimiters = .standard)
      (hbody : ∀ n ∈ body.getD [], Normal n) (hbodyApart : Apart (body.getD []))
      (hinverse : ∀ n ∈ inverse.getD [], Normal n) (hinverseApart : Apart (inverse.getD [])) :
      Normal (.block head body inverse)
  | inlinePartial {place : Option Location} {name : String} {body : List Node}
      (hname : NormalInlineName name) (hbody : ∀ n ∈ body, Normal n) (hbodyApart : Apart body) :
      Normal (.inlinePartial place name body .standard)
  | inclusion {place : Option Location} {name : String} {args : List Param} {hash : HashParams}
      (hname : isPlainName name = true) (hargs : Param.AllNormal args hash)
      (hone : args.length ≤ 1) : Normal (.inclusion place name args hash .standard)

mutual

/-- The node with an empty body in every section that has none. -/
def filled : Node → Node
  | block head body inverse =>
    .block head
      (some (match body with
        | some nodes => filledAll nodes
        | none => []))
      (match inverse with
        | some nodes => some (filledAll nodes)
        | none => none)
  | inlinePartial place name body delimiters =>
    .inlinePartial place name (filledAll body) delimiters
  | n => n

/-- Nodes with an empty body in every section that has none. -/
def filledAll : List Node → List Node
  | [] => []
  | n :: rest => filled n :: filledAll rest

end

/-- A section that is not without a body, or any other node. -/
def HasBody : Node → Prop
  | block _ none _ => False
  | _ => True

theorem filled_of_hasBody (n : Node) (h : HasBody n) (hinside : Every HasBody n.children) :
    n.filled = n := by
  induction n using Node.induct with
  | step n ih =>
    have hall : ∀ nodes : List Node, (∀ m ∈ nodes, m ∈ n.children) → Every HasBody nodes →
        filledAll nodes = nodes := by
      intro nodes hchildren hbodies
      induction nodes with
      | nil => rw [filledAll]
      | cons m rest ihrest =>
        obtain ⟨hm, hdeep, hrest⟩ := Every.cons_iff.1 hbodies
        rw [filledAll, ih m (hchildren m List.mem_cons_self) hm hdeep,
          ihrest (fun k hk => hchildren k (List.mem_cons_of_mem _ hk)) hrest]
    cases n with
    | block head body inverse =>
      obtain ⟨hbody, hinverse⟩ := Every.append_iff.1 hinside
      cases body with
      | none => exact absurd h id
      | some body =>
        have hbody := hall body (fun m hm => List.mem_append_left _ hm) hbody
        cases inverse with
        | none => simp only [filled, hbody]
        | some inverse =>
          have hinverse := hall inverse (fun m hm => List.mem_append_right _ hm) hinverse
          simp only [filled, hbody, hinverse]
    | inlinePartial place name body delimiters =>
      have hbody := hall body (fun m hm => hm) hinside
      simp only [filled, hbody]
    | text | comment | output | inclusion => simp only [filled]

/-- Where every section has a body, none is filled in. -/
theorem filledAll_of_hasBody {nodes : List Node} (h : Every HasBody nodes) :
    filledAll nodes = nodes := by
  induction nodes with
  | nil => rw [filledAll]
  | cons n rest ih =>
    obtain ⟨hn, hinside, hrest⟩ := Every.cons_iff.1 h
    rw [filledAll, filled_of_hasBody n hn hinside, ih hrest]

end Node

namespace Template

/-- A template whose nodes are normal. -/
structure Normal (t : Template) : Prop where
  nodes : ∀ n ∈ t.root, n.Normal
  apart : Node.Apart t.root

/-- The template with an empty body in every section that has none. -/
def filled (t : Template) : Template := { t with root := Node.filledAll t.root }

end Template

end Stencil
