import Stencil.Value.Basic
import Stencil.Decimal.Integer
import Stencil.Decimal.Layout

/-!
# The text of a value

A value is written in one of two forms. `literal` is the form a value takes inside a mapping: texts
quoted, collections in their brackets. `display` is the form a tag writes: nothing for null, texts
as they are, the items of an iterable joined with commas, and everything else as its literal.
Displaying draws iterators, so `display` takes and returns the labels of those already drawn.
-/

namespace Stencil.Value

/-- Doubles are written positionally from `0.0001` up to sixteen digits before the point, and a
whole one keeps a zero behind the point. -/
def floatLayout : Decimal.Layout :=
  { lowestPoint := -3, highestPoint := 16, exponentWidth := 2, wholeTail := ".0",
    infinity := "inf", notANumber := "nan" }

mutual

/-- A value as it stands inside a mapping. -/
def literal : Value → Except Fault String
  | null => pure "None"
  | bool b => pure (if b then "True" else "False")
  | int n => Decimal.writeInteger n
  | float x => pure (floatLayout.text x)
  | text s | safe s => pure (Text.quoted s)
  | bytes _ content => pure (Text.quotedBytes content)
  | list _ items => do pure ("[" ++ ", ".intercalate (← literals items) ++ "]")
  | tuple _ items => do
    match ← literals items with
    | [only] => pure ("(" ++ only ++ ",)")
    | parts => pure ("(" ++ ", ".intercalate parts ++ ")")
  | map _ entries => do pure ("\x7b" ++ ", ".intercalate (← entryLiterals entries) ++ "\x7d")
  | object .. => pure "<obj>"
  | iterator .. => pure "<iterator>"
  | function .. => pure "<fn>"
  | lambda .. => pure "FunctionLambda(<fn>)"
  | pathLambda .. => pure "<lambda>"

/-- The literals of some values. -/
def literals : List Value → Except Fault (List String)
  | [] => pure []
  | v :: rest => do
    let first ← literal v
    pure (first :: (← literals rest))

/-- The entries of a mapping, each as key and value. -/
def entryLiterals : List (Value × Value) → Except Fault (List String)
  | [] => pure []
  | (k, v) :: rest => do
    let key ← literal k
    let value ← literal v
    pure ((key ++ ": " ++ value) :: (← entryLiterals rest))

end

mutual

/-- A value as a tag writes it, and the iterators drawn by then. -/
def display (drawn : List Label) : Value → Except Fault (String × List Label)
  | null => pure ("", drawn)
  | bool b => pure (if b then "true" else "false", drawn)
  | text s | safe s => pure (s, drawn)
  | list _ items | tuple _ items => do
    let (parts, drawn) ← displays drawn items
    pure (",".intercalate parts, drawn)
  | iterator label items =>
    if drawn.contains label then pure ("", drawn)
    else do
      let (parts, drawn) ← displays (label :: drawn) items
      pure (",".intercalate parts, drawn)
  | v => do pure (← literal v, drawn)

/-- Values displayed one after the other. -/
def displays (drawn : List Label) : List Value → Except Fault (List String × List Label)
  | [] => pure ([], drawn)
  | v :: rest => do
    let (first, drawn) ← display drawn v
    let (others, drawn) ← displays drawn rest
    pure (first :: others, drawn)

end

end Stencil.Value
