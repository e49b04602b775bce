import Stencil.Node.Basic

/-!
# Source form

The tree written out as source again, each tag with the delimiters it was read with. Parsing what is
written gives the tree back, apart from places and from the white space that tags took with them.
-/

namespace Stencil

namespace Delimiters

/-- A tag with something between its delimiters. -/
def enclose (d : Delimiters) (inner : String) : String := d.opening ++ inner ++ d.closing

end Delimiters

namespace OutputStyle

/-- What stands between the delimiters of an output tag. -/
def inner (style : OutputStyle) (expression : String) : String :=
  match style with
  | plain => expression
  | ampersand => "&" ++ expression
  | triple => "\x7b" ++ expression ++ "\x7d"

end OutputStyle

namespace BlockHead

/-- The sigil of the opening tag. -/
def sigil (head : BlockHead) : String := if head.inverted then "^" else "#"

/-- The opening tag. -/
def openingTag (head : BlockHead) : String :=
  head.delimiters.enclose <|
    head.sigil ++ head.call.name ++ Param.tailText head.call.args head.call.hash ++
      (if head.blockParams.isEmpty then ""
      else " as |" ++ " ".intercalate head.blockParams ++ "|")

/-- The else tag. -/
def elseTag (head : BlockHead) : String := head.delimiters.enclose head.label.text

/-- The closing tag. -/
def closingTag (head : BlockHead) : String := head.delimiters.enclose ("/" ++ head.call.name)

/-- The section with dots in place of its clauses. -/
def short (head : BlockHead) : String := head.openingTag ++ "\n...\n" ++ head.closingTag

end BlockHead

namespace Node

mutual

/-- A node in source. -/
def source : Node → String
  | text _ content => content
  | comment _ content delimiters => delimiters.enclose ("!" ++ content)
  | output _ style call delimiters =>
    delimiters.enclose (style.inner (call.name ++ Param.tailText call.args call.hash))
  | block head body inverse =>
    head.openingTag ++
      (match body with
        | some nodes => sources nodes
        | none => "") ++
      (match inverse with
        | some nodes => head.elseTag ++ sources nodes
        | none => "") ++
      head.closingTag
  | inlinePartial _ name body delimiters =>
    delimiters.enclose ("#*inline \"" ++ name ++ "\"") ++ sources body ++
      delimiters.enclose "/inline"
  | inclusion _ name args hash delimiters =>
    delimiters.enclose ("> " ++ name ++ Param.tailText args hash)

/-- Nodes in source, one after the other. -/
def sources : List Node → String
  | [] => ""
  | n :: rest => source n ++ sources rest

end

end Node

namespace Fragment

/-- A fragment in source. -/
def source (f : Fragment) : String := Node.sources f.nodes

end Fragment

namespace Template

/-- A template in source. -/
def source (t : Template) : String := Node.sources t.root

end Template

end Stencil
