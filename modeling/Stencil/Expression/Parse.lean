import Stencil.Expression.Item
import Stencil.Expression.Param

/-!
# Parsing expressions

The items of a tag read as a name, positional arguments, named arguments and, on sections, block
parameters, in this order. An argument is a literal, a reference, or a call in parentheses, which
has arguments of its own. Names are bound to helpers as they are read.
-/

namespace Stencil

/-- What a tag says behind its name. -/
structure Arguments where
  args : List Param := []
  hash : HashParams := []
  blockParams : List String := []

/-- What parsing a tag needs to know: where the tag stands, and which names are helpers. -/
structure Binding where
  place : Location
  helperOf : String → Option Helper

namespace Expression

/-- The failure of a tag. -/
def failAt {α : Type} (place : Location) (cause : ParseError) : Except Failure α :=
  throw (.parse place cause)

/-- Names up to the closing pipe, and what follows it. -/
def blockNames (place : Location) : List Item → Except Failure (List String × List Item)
  | [] => failAt place .unclosedBlockParams
  | .pipe :: rest => pure ([], rest)
  | .word name :: rest => do
    let (names, left) ← blockNames place rest
    pure (name :: names, left)
  | item :: _ => failAt place (.badBlockParam item.text)

/-- Block parameters behind their opening pipe. There is at least one, and nothing follows. -/
def blockParams (place : Location) (items : List Item) : Except Failure (List String) := do
  let (names, left) ← blockNames place items
  if names.isEmpty then failAt place .noBlockParams
  else if !left.isEmpty then failAt place .blockParamsNotLast
  else pure names

/-- The argument that a bare text is. -/
def bareParam (raw : String) : Except Failure Param :=
  match Param.ofText raw with
  | .ok p => pure p
  | .error cause => throw (.fault cause)

mutual

/-- One argument, and the items after it. -/
def param (b : Binding) (items : List Item) :
    Except Failure (Param × { rest : List Item // rest.length < items.length }) :=
  match items with
  | [] => failAt b.place .unexpectedEnd
  | .quoted raw :: rest => do pure (← bareParam raw, ⟨rest, by simp⟩)
  | .word raw :: rest => do pure (← bareParam raw, ⟨rest, by simp⟩)
  | .openParen :: rest => do
    let (p, ⟨left, hleft⟩) ← callBehind b rest
    pure (p, ⟨left, by simp only [List.length_cons]; omega⟩)
  | item :: _ => failAt b.place (.unexpectedItem item.text)
termination_by 3 * items.length

/-- A call behind its opening parenthesis, and the items after its closing one. -/
def callBehind (b : Binding) (items : List Item) :
    Except Failure (Param × { rest : List Item // rest.length < items.length }) :=
  match items with
  | .word name :: rest => do
    let (found, ⟨left, hleft⟩) ← arguments b true false rest
    match hl : left with
    | [] => failAt b.place .unclosedCall
    | _ :: after =>
      pure (.call (some b.place) name found.args found.hash (b.helperOf name),
        ⟨after, by subst hl; simp only [List.length_cons] at *; omega⟩)
  | _ => failAt b.place .callHeadExpected
termination_by 3 * items.length

/-- The arguments at the front, and the items after them. Inside a call they end at the closing
parenthesis and there are no block parameters; `named` holds once a named argument has been read. -/
def arguments (b : Binding) (inCall named : Bool) (items : List Item) :
    Except Failure (Arguments × { rest : List Item // rest.length ≤ items.length }) :=
  match items with
  | [] => pure ({}, ⟨[], by simp⟩)
  | item :: after =>
    if inCall && item == .closeParen then pure ({}, ⟨item :: after, by simp⟩)
    else
      match item, after with
      | .word key, .equals :: rest => do
        let (p, ⟨left, hleft⟩) ← param b rest
        let (others, ⟨last, hlast⟩) ← arguments b inCall true left
        pure ({ others with hash := (key, p) :: others.hash },
          ⟨last, by simp only [List.length_cons] at *; omega⟩)
      | .word "as", .pipe :: rest =>
        if inCall then positional b inCall named (.word "as" :: .pipe :: rest)
        else do pure ({ blockParams := ← blockParams b.place rest }, ⟨[], by simp⟩)
      | item, after => positional b inCall named (item :: after)
termination_by 3 * items.length + 2

/-- A positional argument and the arguments after it; none may follow a named one. -/
def positional (b : Binding) (inCall named : Bool) (items : List Item) :
    Except Failure (Arguments × { rest : List Item // rest.length ≤ items.length }) :=
  if named then failAt b.place .positionalAfterHash
  else do
    let (p, ⟨left, hleft⟩) ← param b items
    let (others, ⟨last, hlast⟩) ← arguments b inCall false left
    pure ({ others with args := p :: others.args }, ⟨last, by omega⟩)
termination_by 3 * items.length + 1

end

/-- The items of an expression. -/
def itemsOf (place : Location) (expression : String) : Except Failure (List Item) :=
  match Item.scan expression.toList with
  | .ok items => pure items
  | .error cause => failAt place cause

/-- The name of a tag and what it says behind it. -/
def ofItems (b : Binding) (expression : String) : List Item → Except Failure (String × Arguments)
  | .word name :: rest => do
    let (found, _) ← arguments b false false rest
    pure (name, found)
  | _ => failAt b.place (.nameExpected expression)

/-- An expression read as a name with arguments. -/
def parse (b : Binding) (expression : String) : Except Failure (String × Arguments) := do
  ofItems b expression (← itemsOf b.place expression)

end Expression

end Stencil
