import Stencil.Expression.Param
import Stencil.Token.Basic

/-!
# Nodes

A compiled template is a tree of nodes: text, comments, output tags, sections, definitions of inline
partials, and tags that render a partial. A node knows the place of its tag, for failures only, and
a section or output tag the helper that its name was bound to. A fragment is a list of nodes that is
rendered as one, and a template is a fragment with a name.
-/

namespace Stencil

/-- How an output tag is written; only the plain form is escaped. -/
inductive OutputStyle where
  | plain
  | ampersand
  | triple
deriving DecidableEq, Repr

/-- How a tag of each style is called in listings and by helpers. -/
def OutputStyle.tag : OutputStyle → TagKind
  | plain => .plain
  | ampersand => .ampersand
  | triple => .triple

/-- What the tags of a section say. -/
structure BlockHead where
  place : Option Location
  inverted : Bool
  call : Invocation
  blockParams : List String
  /-- How the else tag is spelled. -/
  label : ElseLabel
  /-- The place of the else tag. -/
  elsePlace : Option Location
  delimiters : Delimiters

/-- The opening of the section at its place. -/
def BlockHead.placed (head : BlockHead) : BlockHead :=
  { head with call := head.call.placed head.place }

/-- A node. -/
inductive Node where
  | text (place : Option Location) (content : String)
  | comment (place : Option Location) (content : String) (delimiters : Delimiters)
  | output (place : Option Location) (style : OutputStyle) (call : Invocation)
      (delimiters : Delimiters)
  /-- A section; a missing body renders nothing, a missing inverse is an empty one that is not
  written out. -/
  | block (head : BlockHead) (body : Option (List Node)) (inverse : Option (List Node))
  /-- The definition of an inline partial. -/
  | inlinePartial (place : Option Location) (name : String) (body : List Node)
      (delimiters : Delimiters)
  /-- A tag that renders a partial. -/
  | inclusion (place : Option Location) (name : String) (args : List Param) (hash : HashParams)
      (delimiters : Delimiters)

/-- Nodes that are rendered as one, with the place to blame for a failure that no node inside has a
place for. -/
structure Fragment where
  place : Option Location := none
  nodes : List Node := []

/-- A compiled template. -/
structure Template where
  name : String
  root : List Node
  place : Option Location := none

namespace Template

/-- The template as a fragment. -/
def fragment (t : Template) : Fragment := ⟨t.place, t.root⟩

end Template

namespace Node

/-- The place of a node. -/
def place : Node → Option Location
  | text place _ | comment place _ _ | output place _ _ _ | inlinePartial place _ _ _
  | inclusion place _ _ _ _ => place
  | block head _ _ => head.place

end Node

end Stencil
