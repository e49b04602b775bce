import Stencil.Expression.Parse
import Stencil.Node.Basic
import Stencil.Token.Trim

/-!
# From tokens to trees

Sections are read by recursive descent. A list of nodes ends at a closing tag, an else tag or the
end of the source, and whoever asked for the list decides whether that is right: a section takes its
closing tag and at most one plain else tag, an inline partial takes its closing tag only, and a whole
template takes neither. An else tag with an expression opens a section inside the else clause that
shares the closing tag of the section around it.
-/

namespace Stencil

namespace Node

/-- What reading a source needs to know: its name, and which names are helpers. -/
structure Reader where
  file : String
  helperOf : String → Option Helper

namespace Reader

/-- The failure of a tag. -/
def failAt {α : Type} (r : Reader) (t : Token) (cause : ParseError) : Except Failure α :=
  throw (.parse (t.location r.file) cause)

/-- What the tag of a token binds its names with. -/
def binding (r : Reader) (t : Token) : Binding := ⟨t.location r.file, r.helperOf⟩

/-- A name with arguments, its helper looked up. -/
def invocation (r : Reader) (name : String) (found : Arguments) : Invocation :=
  ⟨name, found.args, found.hash, r.helperOf name⟩

/-- An output tag. It declares no block parameters. -/
def outputNode (r : Reader) (t : Token) (style : OutputStyle) : Except Failure Node := do
  let (name, found) ← Expression.parse (r.binding t) t.value
  if !found.blockParams.isEmpty then r.failAt t .blockParamsOutsideSection
  else pure (.output (t.location r.file) style (r.invocation name found) t.delimiters)

/-- The name of a partial: a word as it is, or the text of a quoted one. -/
def partialName (r : Reader) (t : Token) : List Item → Except Failure (String × List Item)
  | .word raw :: rest => pure (raw, rest)
  | .quoted raw :: rest =>
    match Literal.ofText? raw with
    | .ok (some (.text name)) => pure (name, rest)
    | _ => r.failAt t .partialNameExpected
  | _ => r.failAt t .partialNameExpected

/-- A tag that renders a partial, with at most one positional argument. -/
def inclusionNode (r : Reader) (t : Token) : Except Failure Node := do
  let items ← Expression.itemsOf (t.location r.file) t.value
  let (name, rest) ← r.partialName t items
  let (found, _) ← Expression.arguments (r.binding t) false false rest
  if !found.blockParams.isEmpty || found.args.length > 1 then r.failAt t .partialArguments
  else pure (.inclusion (t.location r.file) name found.args found.hash t.delimiters)

/-- The name that the opening tag of an inline partial gives: one quoted text. -/
def inlineName (r : Reader) (t : Token) : Except Failure String := do
  let (decorator, found) ← Expression.parse (r.binding t) t.value
  if decorator != "inline" then r.failAt t (.unknownDecorator decorator)
  else
    match found.args with
    | [.literal _ (.text name)] => pure name
    | _ => r.failAt t .unnamedInline

/-- The node of a tag or text that holds no other nodes; there is none for a tag that only sets
delimiters. -/
def leaf (r : Reader) (t : Token) : Except Failure (List Node) :=
  match t.kind with
  | .text => pure [.text (t.location r.file) t.value]
  | .comment => pure [.comment (t.location r.file) t.value t.delimiters]
  | .plain => do pure [← r.outputNode t .plain]
  | .ampersand => do pure [← r.outputNode t .ampersand]
  | .triple => do pure [← r.outputNode t .triple]
  | .inclusion => do pure [← r.inclusionNode t]
  | _ => pure []

/-- What follows the closing tag of `name`, which was opened at `opener`. -/
def closed (r : Reader) (opener : Token) (name : String) (tokens : List Token) :
    Except Failure { rest : List Token // rest.length ≤ tokens.length } :=
  match tokens with
  | t :: rest =>
    if t.kind != .closing then r.failAt opener (.unterminated name)
    else if t.value != name then r.failAt t (.wrongClose name t.value)
    else pure ⟨rest, by simp⟩
  | [] => r.failAt opener (.unterminated name)

mutual

/-- The nodes up to a closing tag, an else tag or the end, and the tokens from there on. -/
def nodes (r : Reader) (tokens : List Token) :
    Except Failure (List Node × { rest : List Token // rest.length ≤ tokens.length }) :=
  match tokens with
  | [] => pure ([], ⟨[], by simp⟩)
  | t :: rest =>
    match t.kind with
    | .closing | .otherwise _ | .ending => pure ([], ⟨t :: rest, by simp⟩)
    | .opening | .inverted => do
      let (head, node, ⟨left, hleft⟩) ← block r t t.value (t.kind == .inverted) rest
      let ⟨after, hafter⟩ ← r.closed t head.call.name left
      let (others, ⟨last, hlast⟩) ← nodes r after
      pure (node :: others, ⟨last, by simp only [List.length_cons]; omega⟩)
    | .inline => do
      let name ← r.inlineName t
      let (body, ⟨left, hleft⟩) ← nodes r rest
      match left.head? with
      | some stop =>
        match stop.kind with
        | .otherwise _ => r.failAt stop .elseInInline
        | _ => pure ()
      | none => pure ()
      let ⟨after, hafter⟩ ← r.closed t "inline" left
      let (others, ⟨last, hlast⟩) ← nodes r after
      pure (.inlinePartial (t.location r.file) name body t.delimiters :: others,
        ⟨last, by simp only [List.length_cons]; omega⟩)
    | _ => do
      let first ← r.leaf t
      let (others, ⟨last, hlast⟩) ← nodes r rest
      pure (first ++ others, ⟨last, by simp only [List.length_cons]; omega⟩)
termination_by 2 * tokens.length

/-- A section behind the tag that opens it, up to the closing tag: its head, the section, and the
tokens from the closing tag on. -/
def block (r : Reader) (opener : Token) (expression : String) (inverted : Bool)
    (tokens : List Token) :
    Except Failure (BlockHead × Node × { rest : List Token // rest.length ≤ tokens.length }) := do
  let (name, found) ← Expression.parse (r.binding opener) expression
  let head : BlockHead :=
    { place := opener.location r.file, inverted, call := r.invocation name found,
      blockParams := found.blockParams, label := .word, elsePlace := none,
      delimiters := opener.delimiters }
  let (body, ⟨left, hleft⟩) ← nodes r tokens
  match hl : left with
  | [] => pure (head, .block head body none, ⟨[], by simp⟩)
  | t :: rest =>
    match t.kind with
    | .otherwise label =>
      let head := { head with label, elsePlace := t.location r.file }
      if t.value != "" then do
        let (_, nested, ⟨last, hlast⟩) ← block r t t.value false rest
        pure (head, .block head body (some [nested]),
          ⟨last, by subst hl; simp only [List.length_cons] at hleft; omega⟩)
      else do
        let (inverse, ⟨last, hlast⟩) ← nodes r rest
        match last.head? with
        | some stop =>
          match stop.kind with
          | .otherwise _ => r.failAt stop (.secondElse name)
          | _ => pure ()
        | none => pure ()
        pure (head, .block head body (some inverse),
          ⟨last, by subst hl; simp only [List.length_cons] at hleft; omega⟩)
    | _ => pure (head, .block head body none, ⟨t :: rest, by subst hl; exact hleft⟩)
termination_by 2 * tokens.length + 1
decreasing_by all_goals ((try subst hl); (try simp only [List.length_cons] at *); omega)

end

/-- The nodes of a whole source: what ends them is the end. -/
def whole (r : Reader) (tokens : List Token) : Except Failure (List Node) := do
  let (found, ⟨left, _⟩) ← r.nodes tokens
  match left with
  | [] => pure found
  | t :: _ =>
    match t.kind with
    | .closing => r.failAt t (.unexpectedClose t.value)
    | .otherwise _ => r.failAt t .strayElse
    | _ => pure found

end Reader

end Node

namespace Template

/-- The template that a source is, under a name and with delimiters to begin with. -/
def ofSource (helperOf : String → Option Helper) (marks : Delimiters) (name source : String) :
    Except Failure Template := do
  let tokens ← Token.ofSource name marks source
  let root ← Node.Reader.whole ⟨name, helperOf⟩ tokens
  pure { name, root, place := some ⟨name, 1, 1⟩ }

end Template

end Stencil
