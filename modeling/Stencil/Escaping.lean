/-!
# Escaping

The two ways of writing text into a page: with the characters that mean something in HTML replaced
by entities, or as it is. Markup written through the first holds none of those characters but
ampersands that start an entity.
-/

namespace Stencil

/-- How output tags are escaped. -/
inductive Escaping where
  | html
  | off
deriving DecidableEq, Repr

namespace Escaping

/-- The entity of a character, if it has one. -/
def entity? : Char → Option String
  | '&' => some "&amp;"
  | '<' => some "&lt;"
  | '>' => some "&gt;"
  | '"' => some "&quot;"
  | '\'' => some "&#x27;"
  | '\x60' => some "&#x60;"
  | '=' => some "&#x3D;"
  | _ => none

/-- A character, or its entity. -/
def escapeChar (c : Char) : List Char :=
  match entity? c with
  | some entity => entity.toList
  | none => [c]

/-- A text as an output tag writes it. -/
def escape (e : Escaping) (s : String) : String :=
  match e with
  | html => String.ofList (s.toList.flatMap escapeChar)
  | off => s

end Escaping

end Stencil
