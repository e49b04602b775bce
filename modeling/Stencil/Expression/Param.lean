import Stencil.Decimal.Integer
import Stencil.Decimal.Read
import Stencil.Helper.Action
import Stencil.Text.Search

/-!
# Arguments

An argument of a tag is a literal, a reference or a call of another helper. A literal keeps the
text it was written as beside the value it stands for. A bare text is a quoted text, one of the words
for true, false and null, a number, or else a reference.
-/

namespace Stencil

/-- The value that a literal stands for. -/
inductive Literal where
  | text (s : Particular String)
  | integer (n : Particular Int)
  | decimal (x : Particular Float)
  | boolean (b : Bool)
  | null

/-- An argument. -/
inductive Param where
  /-- A literal as written, and its value. -/
  | literal (raw : String) (value : Literal)
  | reference (raw : String)
  /-- A helper call in parentheses, with the helper that its name was bound to. -/
  | call (place : Option Location) (name : String) (args : List Param)
      (hash : List (String × Param)) (helper : Option Helper)

/-- Named arguments in the order they are written. -/
abbrev HashParams := List (String × Param)

/-- A name with its arguments, and the helper that the name was bound to when it was compiled. -/
structure Invocation where
  name : String
  args : List Param := []
  hash : HashParams := []
  helper : Option Helper := none

namespace Literal

/-- The value of a literal. -/
def value : Literal → Value
  | text s => .text s
  | integer n => .int n
  | decimal x => .float x
  | boolean b => .bool b
  | null => .null

/-- The literal that is written somewhere. -/
def writtenAt (place : Option Location) (slots : List Slot) : Literal → Literal
  | text s => text { s with origin := .written place slots }
  | integer n => integer { n with origin := .written place slots }
  | decimal x => decimal { x with origin := .written place slots }
  | boolean b => boolean b
  | null => null

/-- The text between quotes, with the backslashes taken away that stand before the quote, and then
those that stand before another backslash. -/
def unquote (quote : Char) (body : List Char) : List Char :=
  Text.dropEscapes '\\' (Text.dropEscapes quote body)

/-- Digits with an optional minus sign before them, and an optional point and digits behind. The
answer tells whether there is a point; nothing means that the text is no number. -/
def numberShape? (cs : List Char) : Option Bool :=
  let body := if cs.head? == some '-' then cs.drop 1 else cs
  let whole := body.takeWhile Text.isDecimal
  match body.dropWhile Text.isDecimal with
  | [] => if whole.isEmpty then none else some false
  | c :: fraction =>
    if c == '.' && !whole.isEmpty && !fraction.isEmpty && fraction.all Text.isDecimal then some true
    else none

/-- The literal that a bare text is, if it is one. Quotes count when the text begins and ends with
the same one. -/
def ofText? (raw : String) : Except Fault (Option Literal) :=
  let cs := raw.toList
  let quote := cs.headD ' '
  if cs.length ≥ 2 && (quote == '"' || quote == '\'') && cs.getLast? == some quote then
    pure (some (text (String.ofList (unquote quote (cs.drop 1).dropLast))))
  else if raw == "true" then pure (some (boolean true))
  else if raw == "false" then pure (some (boolean false))
  else if raw == "null" || raw == "undefined" then pure (some null)
  else
    match numberShape? cs with
    | some true =>
      pure ((Decimal.readScientific? cs).map fun x => decimal x.toFloat)
    | some false => do pure (some (integer (← Decimal.readInteger raw)))
    | none => pure none

end Literal

namespace Param

/-- The argument that a bare text is. -/
def ofText (raw : String) : Except Fault Param := do
  match ← Literal.ofText? raw with
  | some value => pure (.literal raw value)
  | none => pure (.reference raw)

/-- References are looked up at every evaluation. -/
def isReference : Param → Bool
  | reference _ => true
  | _ => false

mutual

/-- An argument of the tag at a place: the literals in it are values of their own from here on, told
apart by the place and by the way to each of them through the arguments. -/
def placed (place : Option Location) (slots : List Slot) : Param → Param
  | literal raw value => literal raw (value.writtenAt place slots)
  | reference raw => reference raw
  | call at_ name args hash helper =>
    call at_ name (placedArgs place slots args) (placedHash place slots hash) helper

/-- Positional arguments of a tag. -/
def placedArgs (place : Option Location) (slots : List Slot) : List Param → List Param
  | [] => []
  | p :: rest => p.placed place (.positional rest.length :: slots) :: placedArgs place slots rest

/-- Named arguments of a tag. -/
def placedHash (place : Option Location) (slots : List Slot) :
    List (String × Param) → List (String × Param)
  | [] => []
  | (key, p) :: rest =>
    (key, p.placed place (.named rest.length :: slots)) :: placedHash place slots rest

end

/-- A text behind a space, or nothing for the empty text. -/
def spaced (s : String) : String := if s == "" then "" else " " ++ s

mutual

/-- An argument in source. -/
def text : Param → String
  | literal raw _ => raw
  | reference raw => raw
  | call _ name args hash _ =>
    "(" ++ name ++ spaced (" ".intercalate (argTexts args)) ++
      spaced (" ".intercalate (hashTexts hash)) ++ ")"

/-- Positional arguments in source, one by one. -/
def argTexts : List Param → List String
  | [] => []
  | p :: rest => text p :: argTexts rest

/-- Named arguments in source, one by one. -/
def hashTexts : List (String × Param) → List String
  | [] => []
  | (key, p) :: rest => (key ++ "=" ++ text p) :: hashTexts rest

end

/-- Positional arguments in source. -/
def argsText (args : List Param) : String := " ".intercalate (argTexts args)

/-- Named arguments in source. -/
def hashText (hash : HashParams) : String := " ".intercalate (hashTexts hash)

/-- The arguments of a tag in source, behind its name. -/
def tailText (args : List Param) (hash : HashParams) : String :=
  spaced (argsText args) ++ spaced (hashText hash)

mutual

/-- Equal arguments: places and bound helpers do not count. -/
def same : Param → Param → Bool
  | literal a _, literal b _ => a == b
  | reference a, reference b => a == b
  | call _ n xs hs _, call _ m ys ks _ => n == m && sameArgs xs ys && sameHash hs ks
  | _, _ => false

/-- Equal positional arguments. -/
def sameArgs : List Param → List Param → Bool
  | [], [] => true
  | x :: xs, y :: ys => same x y && sameArgs xs ys
  | _, _ => false

/-- Equal named arguments. -/
def sameHash : List (String × Param) → List (String × Param) → Bool
  | [], [] => true
  | (a, x) :: xs, (b, y) :: ys => a == b && same x y && sameHash xs ys
  | _, _ => false

end

/-- The references among arguments themselves, positional ones first. -/
def referenceNames (args : List Param) (hash : HashParams) : List String :=
  (args ++ hash.map (·.2)).filterMap fun
    | reference raw => some raw
    | _ => none

mutual

/-- The names of the calls in an argument, from the outermost inwards. -/
def callNames : Param → List String
  | call _ name args hash _ => name :: (argsCallNames args ++ hashCallNames hash)
  | _ => []

/-- The names of the calls in positional arguments. -/
def argsCallNames : List Param → List String
  | [] => []
  | p :: rest => callNames p ++ argsCallNames rest

/-- The names of the calls in named arguments. -/
def hashCallNames : List (String × Param) → List String
  | [] => []
  | (_, p) :: rest => callNames p ++ hashCallNames rest

end

mutual

/-- The references written inside the calls of an argument. -/
def innerReferences : Param → List String
  | call _ _ args hash _ =>
    referenceNames args hash ++ argsInnerReferences args ++ hashInnerReferences hash
  | _ => []

/-- The references written inside the calls of positional arguments. -/
def argsInnerReferences : List Param → List String
  | [] => []
  | p :: rest => innerReferences p ++ argsInnerReferences rest

/-- The references written inside the calls of named arguments. -/
def hashInnerReferences : List (String × Param) → List String
  | [] => []
  | (_, p) :: rest => innerReferences p ++ hashInnerReferences rest

end

/-- All references of a tag: those among its arguments, then those inside its calls. -/
def allReferences (args : List Param) (hash : HashParams) : List String :=
  referenceNames args hash ++ argsInnerReferences args ++ hashInnerReferences hash

end Param

/-- The call of the tag at a place. -/
def Invocation.placed (call : Invocation) (place : Option Location) : Invocation :=
  { call with args := Param.placedArgs place [] call.args, hash := Param.placedHash place [] call.hash }

end Stencil
